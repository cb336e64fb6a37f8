import Mathlib.Data.Rat.Lemmas
import MiningPool.Db.Journal

/-!
# Hash rates

The two queries of `DbReader`. They sum whole rows, so a commit counts if its minute
begins after the cutoff; and no row that young has been pruned.
-/

namespace MiningPool

/-! ### Queries -/

/-- `SELECT COALESCE(SUM(difficulty_sum), 0.0) FROM minute_hashrates WHERE minute_ts >= cutoff`,
among the addresses that satisfy `q`. -/
def Db.diffSum (db : Db) (q : String → Bool) (cutoff : Int) : ℚ :=
  (db.minuteHashrates.filter fun row => q row.1.1 && decide (cutoff ≤ row.1.2)).total fun _ d => d

def lookbackCutoff (nowSecs : Int) (lookbackMinutes : Nat) : Int := nowSecs - lookbackMinutes * 60

def Db.hashrate (db : Db) (q : String → Bool) (nowSecs : Int) (lookbackMinutes : Nat) : ℚ :=
  db.diffSum q (lookbackCutoff nowSecs lookbackMinutes) * 4294967296 / (lookbackMinutes * 60)

def hashrateForAddress (db : Db) (nowSecs : Int) (address : String) (lookbackMinutes : Nat) : ℚ :=
  db.hashrate (fun a => a = address) nowSecs lookbackMinutes

def poolHashrate (db : Db) (nowSecs : Int) (lookbackMinutes : Nat) : ℚ :=
  db.hashrate (fun _ => true) nowSecs lookbackMinutes

/-! ### What is pruned -/

/-- Flooring to the minute goes up only for times before the epoch, and then by less than a
minute. -/
private theorem floorMinute_lt (nowSecs : Int) : floorMinute nowSecs < nowSecs + 60 := by
  rw [floorMinute]
  have whole := Int.mul_tdiv_add_tmod nowSecs 60
  have rest := Int.lt_tmod_of_pos nowSecs (show (0 : Int) < 60 by decide)
  omega

/-- No pruned row is as young as the cutoff of a query of less than a day. -/
private theorem pruned_before {start : Nat} {inputs : List WorkerInput} {w : Worker} {now : Int}
    {lookbackMinutes : Nat} (ran : Execution.run Worker.step (Worker.new start) inputs = some w)
    (notBefore : ∀ c ∈ (Worker.new start).journal inputs, c.nowSecs ≤ now)
    (short : lookbackMinutes ≤ 1439) :
    ∀ row ∈ w.db.pruned, row.1.2 < lookbackCutoff now lookbackMinutes := by
  intro row member
  obtain ⟨c, committed, old⟩ := Worker.pruned_old ran row member
  have earlier := notBefore c committed
  have floored := floorMinute_lt c.nowSecs
  rw [Commit.minuteTs, minuteRetentionSecs] at old
  rw [lookbackCutoff]
  omega

/-! ### What is counted -/

/-- What was committed since the cutoff, counted by the minute, under the addresses that
satisfy `q`. -/
def committedSince (q : String → Bool) (cutoff : Int) (journal : List Commit) : ℚ :=
  difficultySum (((journal.filter fun c => cutoff ≤ c.minuteTs).flatMap Commit.shares).filter
    fun s => q s.minerAddress)

private theorem diffSum_eq {start : Nat} {inputs : List WorkerInput} {w : Worker} {cutoff : Int}
    (ran : Execution.run Worker.step (Worker.new start) inputs = some w)
    (kept : ∀ row ∈ w.db.pruned, row.1.2 < cutoff) (q : String → Bool) :
    w.db.diffSum q cutoff = committedSince q cutoff ((Worker.new start).journal inputs) := by
  rw [committedSince, ← Worker.weigh_eq ran q fun ts => cutoff ≤ ts, Db.weigh, Db.diffSum,
    KeyedTable.total_filter]
  -- the pruned rows are older than the cutoff
  have nothing : (w.db.pruned.map fun row =>
      if q row.1.1 && decide (cutoff ≤ row.1.2) then row.2 else 0).sum = 0 := by
    apply List.sum_eq_zero
    intro x member
    obtain ⟨row, inside, rfl⟩ := List.mem_map.mp member
    simp [kept row inside]
  rw [nothing, add_zero]

/-- A query not before any flush, over less than a day, counts the shares committed at times
whose minute begins in the window: those of the address, or all of them. -/
theorem hashrate_counts_minutes {start : Nat} {inputs : List WorkerInput} {w : Worker} {now : Int}
    {lookbackMinutes : Nat} (ran : Execution.run Worker.step (Worker.new start) inputs = some w)
    (notBefore : ∀ c ∈ (Worker.new start).journal inputs, c.nowSecs ≤ now)
    (short : lookbackMinutes ≤ 1439) (address : String) :
    let cutoff := lookbackCutoff now lookbackMinutes
    let journal := (Worker.new start).journal inputs
    w.db.diffSum (fun a => a = address) cutoff =
        committedSince (fun a => a = address) cutoff journal ∧
      w.db.diffSum (fun _ => true) cutoff = committedSince (fun _ => true) cutoff journal ∧
      -- over no minute at all, the code divides by zero
      (1 ≤ lookbackMinutes →
        hashrateForAddress w.db now address lookbackMinutes =
            committedSince (fun a => a = address) cutoff journal * 2 ^ 32 /
              (lookbackMinutes * 60) ∧
          poolHashrate w.db now lookbackMinutes =
            committedSince (fun _ => true) cutoff journal * 2 ^ 32 / (lookbackMinutes * 60)) := by
  have kept := pruned_before ran notBefore short
  have one := diffSum_eq ran kept fun a => a = address
  have all := diffSum_eq ran kept fun _ => true
  refine ⟨one, all, fun _ => ⟨?_, ?_⟩⟩
  · rw [hashrateForAddress, Db.hashrate, one]
    norm_num
  · rw [poolHashrate, Db.hashrate, all]
    norm_num

/-- A share flushed half a minute after its minute began. -/
def halfMinuteInputs : List WorkerInput :=
  minuteInputs ++ [.check 60000 60001 ⟨90, [("miner", 1)], false⟩]

/-- Half a minute later, a query over the last minute leaves the flush out. -/
theorem flush_in_window_not_counted :
    ¬∀ inputs w (now : Int) (lookbackMinutes : Nat), ClockRuns inputs →
      Execution.run Worker.step (Worker.new 0) inputs = some w →
      (∀ c ∈ (Worker.new 0).journal inputs, c.nowSecs ≤ now) →
      1 ≤ lookbackMinutes → lookbackMinutes ≤ 1439 → ∀ address,
      w.db.diffSum (fun a => a = address) (now - 60 * lookbackMinutes) =
        difficultySum (sharesBy address ((((Worker.new 0).journal inputs).filter fun c =>
          now - 60 * lookbackMinutes ≤ c.nowSecs ∧ c.nowSecs ≤ now).flatMap Commit.shares)) := by
  intro exact_
  have checks : (Execution.run Worker.step (Worker.new 0) halfMinuteInputs).any (fun w =>
      w.db.diffSum (fun a => a = "miner") 61 = 0) := by
    decide +kernel
  obtain ⟨w, ran, none⟩ := Execution.exists_of_any checks
  have counted := exact_ halfMinuteInputs w 121 1 (by decide) ran (by decide +kernel) le_rfl
    (by decide) "miner"
  have one : difficultySum (sharesBy "miner" ((((Worker.new 0).journal halfMinuteInputs).filter
      fun c => (121 : Int) - 60 * (1 : Nat) ≤ c.nowSecs ∧ c.nowSecs ≤ 121).flatMap
        Commit.shares)) = 1 := by
    decide +kernel
  rw [one] at counted
  have zero : w.db.diffSum (fun a => a = "miner") (121 - 60 * (1 : Nat)) = 0 := none
  rw [zero] at counted
  cases counted

/-- A minute's query at the end of that minute. -/
theorem hashrate_counts_minutes_half :
    ∃ w, Execution.run Worker.step (Worker.new 0) halfMinuteInputs = some w ∧
      w.db.diffSum (fun a => a = "miner") (lookbackCutoff 120 1) =
        committedSince (fun a => a = "miner") (lookbackCutoff 120 1)
          ((Worker.new 0).journal halfMinuteInputs) ∧
      hashrateForAddress w.db 120 "miner" 1 =
        committedSince (fun a => a = "miner") (lookbackCutoff 120 1)
          ((Worker.new 0).journal halfMinuteInputs) * 2 ^ 32 / ((1 : Nat) * 60) := by
  obtain ⟨w, ran⟩ : ∃ w, Execution.run Worker.step (Worker.new 0) halfMinuteInputs = some w :=
    Option.isSome_iff_exists.mp (by decide +kernel)
  have notBefore : ∀ c ∈ (Worker.new 0).journal halfMinuteInputs, c.nowSecs ≤ 120 := by
    decide +kernel
  have short : 1 ≤ 1439 := by decide
  obtain ⟨one, _, rates⟩ := hashrate_counts_minutes ran notBefore short "miner"
  exact ⟨w, ran, one, (rates le_rfl).1⟩

end MiningPool
