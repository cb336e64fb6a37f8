import Mathlib.Algebra.Order.Field.Basic
import Mathlib.Tactic.Linarith
import Mathlib.Tactic.NormNum
import MiningPool.Db.Retention

/-!
# Credited difficulty

`hash_to_difficulty` reads the top 64 bits of a hash. As long as they are not all zero it
is off by less than a factor of two. When they are zero the hash counts as the largest float,
and spoils the sums that its share goes into, but no other.
-/

namespace MiningPool

/-! ### Hashes -/

/-- The top 64 bits. -/
def hashUpper (hash : Bytes 32) : Nat := Bytes.ofBE (hash.data.take 8)

/-- The difficulty of the whole hash, against the target of difficulty one. -/
def trueDifficulty (hash : Bytes 32) : ℚ := (0xFFFF * 2 ^ 208) / Bytes.ofBE hash.data

/-- The top 64 bits of the hash as a number. -/
theorem hashUpper_bounds (hash : Bytes 32) :
    hashUpper hash * 2 ^ 192 ≤ Bytes.ofBE hash.data ∧
      Bytes.ofBE hash.data < (hashUpper hash + 1) * 2 ^ 192 := by
  have rest : (hash.data.drop 8).length = 24 := by
    rw [List.length_drop, hash.size]
  have whole : Bytes.ofBE hash.data =
      hashUpper hash * 256 ^ 24 + Bytes.ofBE (hash.data.drop 8) := by
    rw [hashUpper, ← rest, ← Bytes.ofBE_append, List.take_append_drop]
  have low := Bytes.ofBE_lt (hash.data.drop 8)
  rw [rest] at low
  constructor <;> omega

theorem hashToDifficulty_bounds (hash : Bytes 32) (visible : hashUpper hash ≠ 0) :
    trueDifficulty hash ≤ hashToDifficulty hash ∧
      hashToDifficulty hash ≤ 2 * trueDifficulty hash := by
  obtain ⟨lower, upper⟩ := hashUpper_bounds hash
  have credited : hashToDifficulty hash = 0x00000000ffff0000 / (hashUpper hash : ℚ) :=
    if_neg visible
  have some_ : (0 : ℚ) < hashUpper hash := by exact_mod_cast Nat.pos_of_ne_zero visible
  have below : (hashUpper hash : ℚ) * 2 ^ 192 ≤ Bytes.ofBE hash.data := by exact_mod_cast lower
  -- the bits below are worth less than one more of the top
  have above : (Bytes.ofBE hash.data : ℚ) ≤ (hashUpper hash + hashUpper hash) * 2 ^ 192 := by
    have one : 1 ≤ hashUpper hash := Nat.pos_of_ne_zero visible
    have : Bytes.ofBE hash.data ≤ (hashUpper hash + hashUpper hash) * 2 ^ 192 := by omega
    exact_mod_cast this
  have whole : (0 : ℚ) < Bytes.ofBE hash.data := lt_of_lt_of_le (by positivity) below
  rw [credited, trueDifficulty, ← mul_div_assoc]
  constructor
  · rw [div_le_div_iff₀ whole some_]
    linarith
  · rw [div_le_div_iff₀ some_ whole]
    linarith

/-- A hash whose top 64 bits are zero has the largest float for its difficulty. -/
theorem hashToDifficulty_invisible (hash : Bytes 32) (none : hashUpper hash = 0) :
    hashToDifficulty hash = f64Max := if_pos none

/-- No hash is worth half as much. -/
theorem trueDifficulty_lt (hash : Bytes 32) : 2 * trueDifficulty hash < f64Max := by
  have small : trueDifficulty hash ≤ 0xFFFF * 2 ^ 208 := by
    rw [trueDifficulty]
    -- the hash of zeros divides by zero, which is zero
    rcases Nat.eq_zero_or_pos (Bytes.ofBE hash.data) with zero | positive
    · rw [zero, Nat.cast_zero, div_zero]
      positivity
    · exact div_le_self (by positivity) (by exact_mod_cast positive)
  have large : (2 : ℚ) ^ 240 ≤ f64Max := calc
    (2 : ℚ) ^ 240 ≤ 2 ^ 971 := pow_le_pow_right₀ (by norm_num) (by norm_num)
    _ ≤ (2 ^ 53 - 1) * 2 ^ 971 := le_mul_of_one_le_left (by positivity) (by norm_num)
  have apart : (2 : ℚ) * (0xFFFF * 2 ^ 208) < 2 ^ 240 := by norm_num
  linarith

/-! ### Sums -/

/-- The share has the difficulty that the pool credits for its hash, and the hash is one that
shows in its top 64 bits. -/
structure ShareEvent.Graded (s : ShareEvent) : Prop where
  credited : s.difficulty = hashToDifficulty s.blockHashBe
  visible : hashUpper s.blockHashBe ≠ 0

def trueSum (shares : List ShareEvent) : ℚ :=
  (shares.map fun s => trueDifficulty s.blockHashBe).sum

/-- The number sums up the shares, and if these are graded it is at least what they are worth,
and at most twice that. -/
structure SumsUp (d : ℚ) (shares : List ShareEvent) : Prop where
  sum : d = difficultySum shares
  within : (∀ s ∈ shares, s.Graded) → trueSum shares ≤ d ∧ d ≤ 2 * trueSum shares

theorem difficultySum_sumsUp (shares : List ShareEvent) :
    SumsUp (difficultySum shares) shares := by
  refine ⟨rfl, fun graded => ?_⟩
  have bounds (s : ShareEvent) (member : s ∈ shares) :
      trueDifficulty s.blockHashBe ≤ s.difficulty ∧
        s.difficulty ≤ 2 * trueDifficulty s.blockHashBe := by
    rw [(graded s member).credited]
    exact hashToDifficulty_bounds s.blockHashBe (graded s member).visible
  constructor
  · apply List.sum_le_sum
    intro s member
    exact (bounds s member).1
  · rw [difficultySum, trueSum, ← List.sum_map_mul_left]
    apply List.sum_le_sum
    intro s member
    exact (bounds s member).2

/-! ### The worker -/

/-- A hash that shows in its top 64 bits is credited its difficulty up to a factor of two, any
other the largest float. Each number that the worker keeps sums up the shares it stands for,
and is within a factor of two of what they are worth unless one of these very shares has a hash
of the other kind: the windows not yet written, the totals of the miners, and the rows of the
minutes. -/
theorem difficulty_within_twice :
    (∀ hash : Bytes 32,
      (hashUpper hash ≠ 0 → trueDifficulty hash ≤ hashToDifficulty hash ∧
        hashToDifficulty hash ≤ 2 * trueDifficulty hash) ∧
      (hashUpper hash = 0 → hashToDifficulty hash = f64Max)) ∧
    ∀ start inputs w, Execution.run Worker.step (Worker.new start) inputs = some w →
      (∀ address d, w.minuteWindows.get? address = some d →
        SumsUp d (sharesBy address w.shareBatch)) ∧
      (∀ address row, w.db.epochStats.get? address = some row →
        SumsUp row.totalDifficulty (sharesBy address w.db.shares)) ∧
      ∀ address minuteTs d, w.db.minuteHashrates.get? (address, minuteTs) = some d →
        SumsUp d (rowShares ((Worker.new start).journal inputs) (address, minuteTs)) := by
  refine ⟨fun hash => ⟨hashToDifficulty_bounds hash, hashToDifficulty_invisible hash⟩, ?_⟩
  intro start inputs w ran
  refine ⟨?_, ?_, ?_⟩
  · intro address d window
    -- the windows sum up what is in the batch
    rw [Worker.run_windowsMatch ran address] at window
    obtain ⟨_, sum⟩ := Option.ite_none_right_eq_some.mp window
    rw [← Option.some.inj sum]
    exact difficultySum_sumsUp _
  · intro address row found
    obtain ⟨done, _, _, keeps⟩ := Worker.run_keeps ran
    obtain ⟨shares, account, _, _⟩ := Ledger.mk.inj keeps.tables
    have opened := congrFun account address
    rw [Db.account, found, Option.map_some, ← shares, Account.of] at opened
    -- a miner with a row has shares
    split at opened
    · cases opened
    · obtain ⟨_, total, _⟩ := Account.mk.inj (Option.some.inj opened)
      rw [total]
      exact difficultySum_sumsUp _
  · intro address minuteTs d found
    rw [Worker.row_eq ran found]
    exact difficultySum_sumsUp _

/-- The hash one: no bit of it shows. -/
def hardestHash : Bytes 32 := ⟨List.replicate 31 0 ++ [1], by simp⟩

/-- A share of an address, as the pool credits it for a hash. -/
def creditedShare (address : String) (hash : Bytes 32) : ShareEvent :=
  ⟨address, hashToDifficulty hash, hash, 60⟩

/-- Hashes that show in the last and in the first of their top 64 bits. -/
def faintHash : Bytes 32 := ⟨List.replicate 7 0 ++ [1] ++ List.replicate 24 0xff, by simp⟩
def plainHash : Bytes 32 := ⟨[0x80] ++ List.replicate 31 0, by simp⟩

/-- Two shares of one miner, and one of a lucky one, are flushed; another share comes. -/
def luckyInputs : List WorkerInput :=
  [.event (.share (creditedShare "miner" faintHash)),
    .event (.share (creditedShare "lucky" hardestHash)),
    .event (.share (creditedShare "miner" plainHash)), .drained,
    .check 60000 60001 ⟨61, [("miner", hashToDifficulty faintHash + hashToDifficulty plainHash),
      ("lucky", f64Max)], false⟩,
    .event (.share (creditedShare "miner" plainHash))]

/-- The miner's sums are within the bounds, whatever the luck of the other. -/
theorem difficulty_within_twice_lucky :
    ∃ w d row e, Execution.run Worker.step (Worker.new 0) luckyInputs = some w ∧
      w.minuteWindows.get? "miner" = some d ∧
      w.db.epochStats.get? "miner" = some row ∧ row.sharesCount = 2 ∧
      w.db.minuteHashrates.get? ("miner", 60) = some e ∧
      (w.db.epochStats.get? "lucky").map EpochStats.totalDifficulty = some f64Max ∧
      d ≤ 2 * trueSum [creditedShare "miner" plainHash] ∧
      row.totalDifficulty ≤
        2 * trueSum [creditedShare "miner" faintHash, creditedShare "miner" plainHash] ∧
      e ≤ 2 * trueSum [creditedShare "miner" faintHash, creditedShare "miner" plainHash] := by
  have checks : (Execution.run Worker.step (Worker.new 0) luckyInputs).any (fun w =>
      (w.minuteWindows.get? "miner").isSome ∧
      (w.db.epochStats.get? "miner").map EpochStats.sharesCount = some 2 ∧
      (w.db.minuteHashrates.get? ("miner", 60)).isSome ∧
      (w.db.epochStats.get? "lucky").map EpochStats.totalDifficulty = some f64Max ∧
      sharesBy "miner" w.shareBatch = [creditedShare "miner" plainHash] ∧
      sharesBy "miner" w.db.shares =
        [creditedShare "miner" faintHash, creditedShare "miner" plainHash]) = true ∧
      rowShares ((Worker.new 0).journal luckyInputs) ("miner", 60) =
        [creditedShare "miner" faintHash, creditedShare "miner" plainHash] := by
    decide +kernel
  obtain ⟨runs, minute⟩ := checks
  obtain ⟨w, ran, window, count, written, lucky, batch, shares⟩ := Execution.exists_of_any runs
  obtain ⟨d, window⟩ := Option.isSome_iff_exists.mp window
  obtain ⟨row, found, two⟩ := Option.map_eq_some_iff.mp count
  obtain ⟨e, written⟩ := Option.isSome_iff_exists.mp written
  obtain ⟨windows, totals, minutes⟩ := difficulty_within_twice.2 0 luckyInputs w ran
  have faint : (creditedShare "miner" faintHash).Graded := ⟨rfl, by decide⟩
  have plain : (creditedShare "miner" plainHash).Graded := ⟨rfl, by decide⟩
  have ofWindow := windows "miner" d window
  have ofTotal := totals "miner" row found
  have ofMinute := minutes "miner" 60 e written
  rw [batch] at ofWindow
  rw [shares] at ofTotal
  rw [minute] at ofMinute
  refine ⟨w, d, row, e, ran, window, found, two, written, lucky, ?_, ?_, ?_⟩
  · exact (ofWindow.within (by simpa using plain)).2
  · exact (ofTotal.within (by simpa using ⟨faint, plain⟩)).2
  · exact (ofMinute.within (by simpa using ⟨faint, plain⟩)).2

/-- The largest float is more than twice what the hash is worth. -/
theorem hardestHash_overcredited :
    ¬∀ hash : Bytes 32, Bytes.ofBE hash.data ≠ 0 → trueDifficulty hash ≤ hashToDifficulty hash ∧
      hashToDifficulty hash ≤ 2 * trueDifficulty hash := by
  intro within_
  have one : Bytes.ofBE hardestHash.data = 1 := by decide
  have upper := (within_ hardestHash (by rw [one]; decide)).2
  rw [hashToDifficulty_invisible hardestHash (by decide)] at upper
  exact absurd upper (not_le.mpr (trueDifficulty_lt hardestHash))

end MiningPool
