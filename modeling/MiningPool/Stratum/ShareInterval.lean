import Mathlib.Algebra.Order.Floor.Semifield
import Mathlib.Data.Rat.Floor
import Mathlib.Tactic.FieldSimp
import Mathlib.Tactic.Linarith
import MiningPool.Stratum.ChannelTarget
import MiningPool.Stratum.ShareVerdict

/-!
# The interval between shares

How long a miner that hashes at the rate it declared waits for a share, on average. The aim is
one share in thirty seconds. The cast of the difficulty to an integer rounds down, which may
halve the interval but not make it longer; a slow miner gets difficulty one, and waits longer.

## Main result

`share_interval`: in every reachable state, each channel has the target of its request, and its
interval is within these bounds, or shorter where the network is easier still.
-/

namespace MiningPool

open Finset

/-! ### Rates -/

/-- The value of a 32-bit float, if it is a number. -/
def f32Value (bits : UInt32) : Option ℚ :=
  let negative := bits >>> 31 == 1
  let exponent := ((bits >>> 23) &&& 0xff).toNat
  let fraction := (bits &&& 0x7fffff).toNat
  if exponent = 255 then none
  else
    let mantissa := if exponent = 0 then fraction else 2 ^ 23 + fraction
    let magnitude : ℚ := mantissa * 2 ^ max exponent 1 / 2 ^ 150
    some (if negative then -magnitude else magnitude)

/-- The difficulty of a rate, in terms of its value. -/
theorem hashrateDifficulty_eq {bits : UInt32} {rate : ℚ} (value : f32Value bits = some rate) :
    hashrateDifficulty bits = max 1 ⌊rate * 30 / 2 ^ 32⌋₊ := by
  simp only [f32Value] at value
  simp only [hashrateDifficulty]
  generalize ((bits >>> 23) &&& 0xff).toNat = exponent at *
  generalize (bits &&& 0x7fffff).toNat = fraction at *
  generalize (if exponent = 0 then fraction else 2 ^ 23 + fraction) = mantissa at *
  by_cases special : exponent = 255
  · rw [if_pos special] at value
    cases value
  rw [if_neg special, Option.some.injEq] at value
  rw [if_neg special]
  cases negative : (bits >>> 31 == 1) with
  | true =>
    -- a rate that is not positive rounds to zero
    rw [negative, if_pos rfl] at value
    have floor : ⌊rate * 30 / 2 ^ 32⌋₊ = 0 := by
      apply Nat.floor_of_nonpos
      have magnitude : (0 : ℚ) ≤ mantissa * 2 ^ max exponent 1 / 2 ^ 150 := by positivity
      have small : rate * 30 ≤ 0 := by linarith
      exact div_nonpos_of_nonpos_of_nonneg small (by positivity)
    rw [if_pos rfl, floor]
    rfl
  | false =>
    rw [negative, if_neg Bool.false_ne_true] at value
    have whole : rate * 30 / 2 ^ 32 =
        ((mantissa * 30 * 2 ^ max exponent 1 : Nat) : ℚ) / (2 ^ (150 + 32) : Nat) := by
      rw [← value]
      push_cast
      ring
    rw [if_neg Bool.false_ne_true, whole, Nat.floor_div_eq_div]

/-! ### Targets -/

/-- Out of all hashes, those that meet a target. -/
def acceptance (T : Nat) : ℚ := ((range (2 ^ 256)).filter (· ≤ T)).card / 2 ^ 256

/-- How many hashes it takes to meet a target, on average. -/
def hashesPerShare (T : Nat) : ℚ := (acceptance T)⁻¹

/-- The seconds between two shares at a rate, on average. -/
def shareInterval (T : Nat) (rate : ℚ) : ℚ := hashesPerShare T / rate

theorem hashesPerShare_eq {T : Nat} (word : T < 2 ^ 256) :
    hashesPerShare T = 2 ^ 256 / (T + 1) := by
  have met : (range (2 ^ 256)).filter (· ≤ T) = range (T + 1) := by
    ext h
    simp only [mem_filter, mem_range]
    omega
  rw [hashesPerShare, acceptance, met, card_range, inv_div]
  push_cast
  rfl

/-- The target of a difficulty takes no more than `2 ^ 32` hashes for each unit of it, up to the
rounding of the difficulty-1 target, and more than `2 ^ 32` if it is not made easier. -/
private theorem hashesPerShare_bounds {d T : Nat} (positive : 1 ≤ d) (finite : d < 2 ^ 101)
    (word : T < 2 ^ 256) (easier : 0xFFFF * 2 ^ 208 / d ≤ T) :
    hashesPerShare T ≤ 65536 / 65535 * (2 ^ 32 * d) ∧
      (T = 0xFFFF * 2 ^ 208 / d → 2 ^ 32 * (d : ℚ) < hashesPerShare T) := by
  rw [hashesPerShare_eq word]
  have above : (0 : ℚ) < T + 1 := by positivity
  constructor
  · -- the quotient rounds down
    have whole : 0xFFFF * 2 ^ 208 < (T + 1) * d :=
      (Nat.div_lt_iff_lt_mul positive).mp (Nat.lt_succ_of_le easier)
    have whole' : (0xFFFF * 2 ^ 208 : ℚ) < (T + 1) * d := by exact_mod_cast whole
    rw [div_le_iff₀ above]
    linarith
  · intro same
    have whole : (T + 1) * d < 2 ^ 224 := by
      have below := Nat.div_mul_le_self (0xFFFF * 2 ^ 208) d
      rw [← same] at below
      rw [Nat.add_mul]
      omega
    rw [lt_div_iff₀ above]
    have whole' : ((T : ℚ) + 1) * d < 2 ^ 224 := by exact_mod_cast whole
    linarith

/-! ### Main result -/

variable {X : Externals} {dbTx : Bool} {pool : String} {c : Connection} {inputs : List Input}

/-- The difficulty of a positive rate is at most that of thirty seconds, or one, and more than
that of fifteen. -/
private theorem difficulty_bounds {bits : UInt32} {rate : ℚ} (value : f32Value bits = some rate)
    (positive : 0 < rate) : 1 ≤ hashrateDifficulty bits ∧ hashrateDifficulty bits < 2 ^ 101 ∧
      2 ^ 32 * (hashrateDifficulty bits : ℚ) ≤ rate * max 30 (2 ^ 32 / rate) ∧
      15 * rate < 2 ^ 32 * (hashrateDifficulty bits : ℚ) := by
  obtain ⟨cast, infinite⟩ := hashrateDifficulty_cast bits
  have finite : bits ≠ f32Infinity := by
    rintro rfl
    have none : f32Value f32Infinity = none := by rfl
    rw [none] at value
    cases value
  obtain ⟨least, small⟩ := cast.resolve_right (mt infinite.mp finite)
  have quotient : (0 : ℚ) ≤ rate * 30 / 2 ^ 32 := by positivity
  have units := hashrateDifficulty_eq value
  refine ⟨least, small, ?_, ?_⟩
  · have down := Nat.floor_le quotient
    have seconds : rate * max 30 (2 ^ 32 / rate) = max (rate * 30) (2 ^ 32) := by
      rw [mul_max_of_nonneg _ _ positive.le, mul_div_cancel₀ _ positive.ne']
    rw [units, seconds, Nat.cast_max, mul_max_of_nonneg _ _ (by positivity)]
    apply max_le
    · exact le_max_of_le_right (by norm_num)
    · apply le_max_of_le_left
      linarith
  · -- rounding down loses less than one, which is less than half of two
    have up := Nat.lt_floor_add_one (rate * 30 / 2 ^ 32)
    have half : ⌊rate * 30 / 2 ^ 32⌋₊ + 1 ≤ 2 * hashrateDifficulty bits := by omega
    have half' : (⌊rate * 30 / 2 ^ 32⌋₊ : ℚ) + 1 ≤ 2 * hashrateDifficulty bits := by
      exact_mod_cast half
    linarith

/-- Every channel has the target of the request that opened it. Its interval is at most about
thirty seconds, or that of difficulty one; and more than fifteen, if the network was not easier
when the channel was opened. -/
theorem share_interval (ran : Connection.run X dbTx (Connection.new pool) inputs = some c)
    {id : UInt32} {ch : ChannelInfo} (found : c.state.channels.get? id = some ch) :
    ∃ i msg, OpenedBy inputs c.live id i msg ∧
      ch.channelTargetBe = openingTarget msg.nominalHashRate i.template.setNewPrevHash.nBits ∧
      ∀ rate, f32Value msg.nominalHashRate = some rate → 0 < rate →
        shareInterval ch.shareTarget rate ≤ 65536 / 65535 * max 30 (2 ^ 32 / rate) ∧
        (networkTarget i.template.setNewPrevHash.nBits ≤
            Bytes.ofBE (hashrateToTargetBe msg.nominalHashRate).data →
          15 < shareInterval ch.shareTarget rate) := by
  obtain ⟨i, msg, opened, asked⟩ := (Connection.run_allocated ran).requested id ch found
  have target := asked.target
  refine ⟨i, msg, opened, target, fun rate value positive => ?_⟩
  obtain ⟨least, small, slow, fast⟩ := difficulty_bounds value positive
  obtain ⟨_, quotient⟩ := divisionTarget_finite least small
  have word : ch.shareTarget < 2 ^ 256 := by
    have bytes := Bytes.ofBE_lt ch.channelTargetBe.data
    rw [ch.channelTargetBe.size] at bytes
    exact bytes
  have easier := ofBE_openingTarget msg.nominalHashRate i.template.setNewPrevHash.nBits
  rw [← target, ofBE_hashrateToTargetBe, quotient] at easier
  rw [ofBE_hashrateToTargetBe, quotient]
  obtain ⟨most, least'⟩ := hashesPerShare_bounds least small word
    (by rw [ChannelInfo.shareTarget, easier]; exact le_max_right _ _)
  constructor
  · rw [shareInterval, div_le_iff₀ positive]
    calc
      hashesPerShare ch.shareTarget
          ≤ 65536 / 65535 * (2 ^ 32 * hashrateDifficulty msg.nominalHashRate) := most
      _ ≤ 65536 / 65535 * (rate * max 30 (2 ^ 32 / rate)) := by gcongr
      _ = 65536 / 65535 * max 30 (2 ^ 32 / rate) * rate := by ring
  · intro harder
    rw [shareInterval, lt_div_iff₀ positive]
    exact fast.trans (least' (by rw [ChannelInfo.shareTarget, easier, max_eq_right harder]))

/-- A miner that declares a terahash per second, on a network that is harder than that. -/
def terahashInput : Input :=
  .frame (.openExtendedMiningChannel (some { regtestOpen with nominalHashRate := 0x5368d4a5 }))
    { regtestTemplate with
      setNewPrevHash := { regtestTemplate.setNewPrevHash with nBits := 0x17034219 } } 1700000000 []

theorem share_interval_terahash : ∃ c ch,
    Connection.run regtestExternals true (Connection.new regtestAddress) [terahashInput] = some c ∧
      c.state.channels.get? 0 = some ch ∧
      ch.channelTargetBe = openingTarget 0x5368d4a5 0x17034219 ∧
      15 < shareInterval ch.shareTarget 999999995904 ∧
      shareInterval ch.shareTarget 999999995904 ≤ 65536 / 65535 * 30 := by
  have checks : (Connection.run regtestExternals true (Connection.new regtestAddress)
        [terahashInput]).any (fun c => decide ((c.state.channels.get? 0).isSome)) = true ∧
      f32Value 0x5368d4a5 = some 999999995904 ∧
      networkTarget 0x17034219 ≤ Bytes.ofBE (hashrateToTargetBe 0x5368d4a5).data := by
    decide +kernel
  obtain ⟨runs, value, harder⟩ := checks
  obtain ⟨c, ran, open_⟩ := Execution.exists_of_any runs
  obtain ⟨ch, found⟩ := Option.isSome_iff_exists.mp open_
  obtain ⟨i, msg, ⟨opens, past, later, split, _⟩, target, bounds⟩ :=
    share_interval ran found
  -- there is one request only
  obtain rfl : i = terahashInput := by
    have member : i ∈ [terahashInput] := split ▸ List.mem_append_right _ List.mem_cons_self
    exact List.mem_singleton.mp member
  cases opens
  obtain ⟨most, least⟩ := bounds _ value (by norm_num)
  refine ⟨c, ch, ran, found, target, least harder, most.trans ?_⟩
  norm_num

end MiningPool
