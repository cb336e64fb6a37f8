import Mathlib.Data.Finset.Dedup
import Mathlib.Data.Finset.Card
import MiningPool.Db.Journal

/-!
# Active minutes

`active_minutes` goes up with every commit that credits an address, while the row that the
same commit writes to `minute_hashrates` may be there already. So it counts the minutes of
the rows if and only if no minute has two commits for the address.
-/

namespace MiningPool

/-- The minutes under which a row was ever written for an address. -/
def Db.minutesWritten (db : Db) (address : String) : Finset Int :=
  ((db.minuteHashrates.keys ++ db.pruned.map Prod.fst).filterMap fun key =>
    if key.1 = address then some key.2 else none).toFinset

/-- The minutes of the commits that credit an address, in order. -/
def creditedMinutes (address : String) (journal : List Commit) : List Int :=
  (journal.filter (Commit.credits · address)).map Commit.minuteTs

private theorem mem_minutesWritten {db : Db} {address : String} {minuteTs : Int} :
    minuteTs ∈ db.minutesWritten address ↔ db.Written (address, minuteTs) := by
  simp only [Db.minutesWritten, List.mem_toFinset, List.mem_filterMap, List.mem_append]
  constructor
  · rintro ⟨key, member, own⟩
    split at own
    next same =>
      cases same
      cases own
      exact member
    · cases own
  · intro written
    exact ⟨(address, minuteTs), written, if_pos rfl⟩

namespace Worker

variable {w : Worker} {start : Nat} {inputs : List WorkerInput} {address : String}

theorem minutesWritten_eq (ran : Execution.run step (new start) inputs = some w)
    (address : String) : w.db.minutesWritten address =
      (creditedMinutes address (journal (new start) inputs)).toFinset := by
  ext minuteTs
  rw [mem_minutesWritten, written_iff ran, List.mem_toFinset, creditedMinutes, List.mem_map]
  constructor
  · rintro ⟨c, committed, same, credits⟩
    exact ⟨c, List.mem_filter.mpr ⟨committed, credits⟩, same.symm⟩
  · rintro ⟨c, member, same⟩
    obtain ⟨committed, credits⟩ := List.mem_filter.mp member
    exact ⟨c, committed, same.symm, credits⟩

theorem activeMinutes_eq_length (ran : Execution.run step (new start) inputs = some w)
    (address : String) : w.db.activeMinutes address =
      (creditedMinutes address (journal (new start) inputs)).length := by
  rw [activeMinutes_eq ran, creditedMinutes, List.length_map, List.countP_eq_length_filter]

end Worker

private theorem card_toFinset_eq_length {l : List Int} :
    l.length = l.toFinset.card ↔ l.Nodup := by
  rw [List.card_toFinset]
  constructor
  · intro same
    -- a list as long as its set has no duplicates
    have kept : l.dedup = l := (List.dedup_sublist l).eq_of_length same.symm
    exact List.dedup_eq_self.mp kept
  · intro unique
    rw [List.Nodup.dedup unique]

/-- The active minutes of an address went up by one at most since `w₁` if all commits since
were made in one minute. -/
def GrowsSlowly (address : String) (inputs : List WorkerInput) (start : Nat) (w : Worker) : Prop :=
  ∀ past later w₁ minuteTs, inputs = past ++ later →
    Execution.run Worker.step (Worker.new start) past = some w₁ →
    (∀ c ∈ w₁.journal later, c.minuteTs = minuteTs) →
    w.db.activeMinutes address ≤ w₁.db.activeMinutes address + 1

private theorem length_le_one {l : List Int} {m : Int} (unique : l.Nodup) (all : ∀ x ∈ l, x = m) :
    l.length ≤ 1 := by
  rw [List.eq_replicate_of_mem all] at unique
  exact List.nodup_replicate.mp unique

/-- The active minutes of an address are the minutes with a row for it, and within a minute
they go up by one at most, if and only if the commits that credit the address were made in
different minutes. -/
theorem active_minutes_iff {start : Nat} {inputs : List WorkerInput} {w : Worker}
    (ran : Execution.run Worker.step (Worker.new start) inputs = some w) (address : String) :
    w.db.activeMinutes address = (w.db.minutesWritten address).card ∧
        GrowsSlowly address inputs start w ↔
      (creditedMinutes address ((Worker.new start).journal inputs)).Nodup := by
  rw [Worker.activeMinutes_eq_length ran, Worker.minutesWritten_eq ran, card_toFinset_eq_length]
  -- the growth follows: commits in one minute are duplicates
  refine and_iff_left_of_imp ?_
  rintro unique past later w₁ minuteTs rfl reached all
  rw [Worker.activeMinutes_eq_length ran, Worker.activeMinutes_eq_length reached]
  have parts : (Worker.new start).journal (past ++ later) =
      (Worker.new start).journal past ++ w₁.journal later :=
    Execution.outputs_append _ reached later
  rw [parts, creditedMinutes, List.filter_append, List.map_append] at unique ⊢
  rw [List.length_append, creditedMinutes, Nat.add_le_add_iff_left]
  refine length_le_one (List.nodup_append.mp unique).2.1 (m := minuteTs) ?_
  intro x member
  obtain ⟨c, committed, rfl⟩ := List.mem_map.mp member
  exact all c (List.mem_filter.mp committed).1

/-- After the flush at 61, another share comes, and the senders go at 63. -/
def sameMinuteInputs : List WorkerInput :=
  minuteInputs ++ [.check 60000 60001 ⟨61, [("miner", 1)], false⟩,
    .event (.share ⟨"miner", 1, Bytes.zeros 32, 62⟩), .disconnected ⟨63, [("miner", 1)], false⟩]

/-- The same, but the senders go a minute later. -/
def nextMinuteInputs : List WorkerInput :=
  minuteInputs ++ [.check 60000 60001 ⟨61, [("miner", 1)], false⟩,
    .event (.share ⟨"miner", 1, Bytes.zeros 32, 62⟩), .disconnected ⟨123, [("miner", 1)], false⟩]

/-- Two flushes in one minute count it twice. -/
theorem minute_counted_twice :
    ¬∀ inputs w, ClockRuns inputs → Execution.run Worker.step (Worker.new 0) inputs = some w →
      ∀ address, w.db.activeMinutes address = (w.db.minutesWritten address).card := by
  intro exact_
  -- two commits in one minute, and one row
  have checks : (Execution.run Worker.step (Worker.new 0) sameMinuteInputs).any (fun w =>
      w.db.activeMinutes "miner" = 2 ∧ (w.db.minutesWritten "miner").card = 1) := by
    decide +kernel
  obtain ⟨w, ran, active, written⟩ := Execution.exists_of_any checks
  have equal := exact_ sameMinuteInputs w (by decide) ran "miner"
  rw [active, written] at equal
  cases equal

/-- Flushes in two minutes count two. -/
theorem active_minutes_iff_next :
    ∃ w, Execution.run Worker.step (Worker.new 0) nextMinuteInputs = some w ∧
      w.db.activeMinutes "miner" = (w.db.minutesWritten "miner").card := by
  obtain ⟨w, ran⟩ : ∃ w, Execution.run Worker.step (Worker.new 0) nextMinuteInputs = some w :=
    Option.isSome_iff_exists.mp (by decide +kernel)
  exact ⟨w, ran, ((active_minutes_iff ran "miner").mpr (by decide +kernel)).1⟩

end MiningPool
