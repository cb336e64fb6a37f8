import Mathlib.Algebra.BigOperators.Intervals
import Mathlib.Algebra.BigOperators.Ring.Finset
import Mathlib.Algebra.Order.BigOperators.Group.Finset
import Mathlib.Tactic.FieldSimp
import MiningPool.Db.Difficulty
import MiningPool.Stratum.Handlers

/-!
# The calibration of the hash rate

How many hashes the readers count, on average, for each header that a miner hashes. The pool
credits an accepted header the difficulty of its own hash, not that of the target it had
to meet. The average is then a harmonic sum, which grows with the target without bound.

## Main result

`credit_calibrated_iff`: it is at most two if and only if the target is at most about
`4.667 * 2 ^ 192`.
-/

namespace MiningPool

open Bitcoin Finset

/-! ### The average -/

/-- The hash that is the big-endian spelling of a number. -/
def hashOfNat (h : Nat) : Bytes 32 := ⟨Bytes.toBE 32 h, Bytes.toBE_length 32 h⟩

/-- What a header with the hash `h` adds to the readers' count of hashes, if the channel has
the target `T`. A hash whose top 64 bits are zero is left out. -/
def countedHashes (T h : Nat) : ℚ :=
  if 2 ^ 192 ≤ h ∧ h ≤ T then 2 ^ 32 * hashToDifficulty (hashOfNat h) else 0

/-- The average over all hashes. -/
def averageCount (T : Nat) : ℚ := (∑ h ∈ range (2 ^ 256), countedHashes T h) / 2 ^ 256

/-! ### Blocks -/

/-- The sum of a function that is constant on blocks of `W` numbers. -/
private theorem sum_blocks {W : Nat} (f : Nat → ℚ) (positive : 0 < W) (n : Nat) {r : Nat}
    (part : r ≤ W) :
    ∑ h ∈ range (n * W + r), f (h / W) = W * ∑ u ∈ range n, f u + r * f n := by
  -- the numbers from `n * W` on
  have block (n : Nat) {r : Nat} (part : r ≤ W) :
      ∑ i ∈ range r, f ((n * W + i) / W) = r * f n := by
    have same : ∀ i ∈ range r, f ((n * W + i) / W) = f n := by
      intro i member
      have small : i < W := (mem_range.mp member).trans_le part
      rw [Nat.mul_comm, Nat.mul_add_div positive, Nat.div_eq_of_lt small, Nat.add_zero]
    rw [sum_congr rfl same, sum_const, card_range, nsmul_eq_mul]
  rw [sum_range_add, block n part]
  congr 1
  induction n with
  | zero => simp
  | succ n ih =>
    rw [Nat.succ_mul, sum_range_add, ih, block n le_rfl, sum_range_succ, mul_add]

/-- The sum of the reciprocals of the top 64 bits, below `m`. -/
private def reciprocals (m : Nat) : ℚ := ∑ h ∈ range m, ((h / 2 ^ 192 : Nat) : ℚ)⁻¹

private theorem reciprocals_mono {m m' : Nat} (le : m ≤ m') : reciprocals m ≤ reciprocals m' :=
  sum_le_sum_of_subset_of_nonneg (range_subset_range.mpr le) fun _ _ _ => by positivity

private theorem reciprocals_eq (n : Nat) {r : Nat} (part : r ≤ 2 ^ 192) :
    reciprocals (n * 2 ^ 192 + r) =
      2 ^ 192 * ∑ u ∈ range n, (u : ℚ)⁻¹ + r * (n : ℚ)⁻¹ := by
  rw [reciprocals, sum_blocks (fun u => (u : ℚ)⁻¹) (by positivity) n part]
  push_cast
  rfl

/-! ### The average as a sum of reciprocals -/

private theorem hashUpper_hashOfNat {h : Nat} (word : h < 2 ^ 256) :
    hashUpper (hashOfNat h) = h / 2 ^ 192 := by
  have spelled : Bytes.ofBE (hashOfNat h).data = h := by
    change Bytes.ofBE (Bytes.toLE 32 h).reverse = h
    rw [Bytes.ofBE_reverse, Bytes.ofLE_toLE 32 h word]
  obtain ⟨lower, upper⟩ := hashUpper_bounds (hashOfNat h)
  rw [spelled] at lower upper
  exact (Nat.div_eq_of_lt_le lower upper).symm

private theorem countedHashes_eq {T h : Nat} (word : h < 2 ^ 256) (within_ : h ≤ T) :
    countedHashes T h = 65535 * 2 ^ 48 * ((h / 2 ^ 192 : Nat) : ℚ)⁻¹ := by
  have upper := hashUpper_hashOfNat word
  unfold countedHashes
  split
  next counted =>
    have visible : h / 2 ^ 192 ≠ 0 := Nat.div_ne_zero_iff.mpr ⟨by positivity, counted.1⟩
    rw [hashToDifficulty, if_neg (by rw [← hashUpper, upper]; exact visible), ← hashUpper, upper]
    ring
  next left =>
    -- below the first block the reciprocal is that of zero
    have below : h / 2 ^ 192 = 0 := Nat.div_eq_of_lt (by omega)
    rw [below, Nat.cast_zero, inv_zero, mul_zero]

private theorem averageCount_eq {T : Nat} (fits : T < 2 ^ 256) :
    averageCount T = 65535 / 65536 * (reciprocals (T + 1) / 2 ^ 192) := by
  have whole : ∑ h ∈ range (2 ^ 256), countedHashes T h =
      ∑ h ∈ range (T + 1), countedHashes T h := by
    symm
    apply sum_subset (range_subset_range.mpr fits)
    intro h _ above
    rw [mem_range] at above
    exact if_neg fun counted => above (Nat.lt_succ_of_le counted.2)
  have sum : ∑ h ∈ range (T + 1), countedHashes T h = 65535 * 2 ^ 48 * reciprocals (T + 1) := by
    rw [reciprocals, mul_sum]
    apply sum_congr rfl
    intro h member
    rw [mem_range] at member
    exact countedHashes_eq (by omega) (by omega)
  rw [averageCount, whole, sum]
  ring

/-! ### The threshold -/

/-- The average for a target that ends a block. -/
private theorem reciprocals_block (n : Nat) :
    reciprocals (n * 2 ^ 192) / 2 ^ 192 = ∑ u ∈ range n, (u : ℚ)⁻¹ := by
  have eq := reciprocals_eq n (Nat.zero_le (2 ^ 192))
  rw [Nat.add_zero, Nat.cast_zero, zero_mul, add_zero] at eq
  rw [eq, mul_div_cancel_left₀ _ (by positivity)]

private theorem averageCount_mono {T m : Nat} (fits : T < 2 ^ 256) :
    (T + 1 ≤ m * 2 ^ 192 → averageCount T ≤ 65535 / 65536 * ∑ u ∈ range m, (u : ℚ)⁻¹) ∧
      (m * 2 ^ 192 ≤ T + 1 → 65535 / 65536 * ∑ u ∈ range m, (u : ℚ)⁻¹ ≤ averageCount T) := by
  rw [averageCount_eq fits, ← reciprocals_block]
  constructor
  · intro le
    have := reciprocals_mono le
    gcongr
  · intro le
    have := reciprocals_mono le
    gcongr

private theorem averageCount_fourth {T : Nat} (lower : 4 * 2 ^ 192 ≤ T + 1)
    (upper : T + 1 ≤ 5 * 2 ^ 192) :
    averageCount T = 65535 / 65536 * (11 / 6 + ((T + 1 - 4 * 2 ^ 192 : ℚ)) / 2 ^ 194) := by
  obtain ⟨r, split⟩ := Nat.exists_eq_add_of_le lower
  have part : r ≤ 2 ^ 192 := by omega
  have rest : (T + 1 - 4 * 2 ^ 192 : ℚ) = r := by
    have : (T + 1 : ℚ) = 4 * 2 ^ 192 + r := by exact_mod_cast split
    rw [this]
    ring
  have terms : ∑ u ∈ range 4, (u : ℚ)⁻¹ = 11 / 6 := by norm_num [sum_range_succ]
  rw [averageCount_eq (by omega), split, reciprocals_eq 4 part, rest, terms]
  push_cast
  ring

private theorem averageCount_inflated {T : Nat} (fits : T < 2 ^ 256)
    (high : 5 * 2 ^ 192 ≤ T + 1) : 2 < averageCount T := by
  have terms : ∑ u ∈ range 5, (u : ℚ)⁻¹ = 25 / 12 := by norm_num [sum_range_succ]
  have least := (averageCount_mono (m := 5) fits).2 high
  rw [terms] at least
  linarith

/-- The term of a header is what the pool credits for it and the readers make of that, if the
channel accepts it and its top 64 bits are not all zero. -/
private theorem countedHashes_workHash (X : Externals) (channel : ChannelInfo)
    (share : SubmitSharesExtended) (header : Header) :
    countedHashes channel.shareTarget (workHash X header) =
      if displayHash (header.blockHash X.sha256d) > Bytes.hexEncode channel.channelTargetBe.data ∨
          hashUpper (creditOf X channel share header).blockHashBe = 0 then 0
      else 2 ^ 32 * (creditOf X channel share header).difficulty := by
  have word : workHash X header < 2 ^ 256 := by
    have := Bytes.ofLE_lt (header.blockHash X.sha256d).data
    rwa [Bytes.size] at this
  have spelled : hashOfNat (workHash X header) = (header.blockHash X.sha256d).reverse := by
    apply Bytes.ext
    have digits := Bytes.toLE_ofLE (header.blockHash X.sha256d).data
    rw [Bytes.size] at digits
    rw [Bytes.reverse_data, ← digits]
    rfl
  -- a hash shows in its top 64 bits from the second block on
  have visible : hashUpper (header.blockHash X.sha256d).reverse = 0 ↔
      workHash X header < 2 ^ 192 := by
    rw [← spelled, hashUpper_hashOfNat word, Nat.div_eq_zero_iff]
    exact or_iff_right (by positivity)
  have counted : (2 ^ 192 ≤ workHash X header ∧ workHash X header ≤ channel.shareTarget) ↔
      ¬(displayHash (header.blockHash X.sha256d) >
          Bytes.hexEncode channel.channelTargetBe.data ∨
        hashUpper (creditOf X channel share header).blockHashBe = 0) := by
    rw [displayHash_gt_iff, creditOf, visible, not_or, not_not, not_lt, and_comm]
  rw [countedHashes, if_congr counted rfl rfl, ite_not, spelled]
  rfl

private theorem averageCount_bounded_iff {T : Nat} (above : 2 ^ 193 ≤ T)
    (below : T ≤ 0xFFFF * 2 ^ 208) :
    1 / 4 ≤ averageCount T ∧ averageCount T ≤ 2 ↔ 65535 * (T + 1) ≤ 152919 * 2 ^ 193 := by
  have fits : T < 2 ^ 256 := by omega
  have quarter : 1 / 4 ≤ averageCount T := by
    have first : ∑ u ∈ range 2, (u : ℚ)⁻¹ = 1 := by norm_num [sum_range_succ]
    have least := (averageCount_mono (m := 2) fits).2 (by omega)
    rw [first] at least
    linarith
  rw [and_iff_right quarter]
  rcases Nat.le_total (T + 1) (4 * 2 ^ 192) with low | low
  -- up to the end of the third block
  · have terms : ∑ u ∈ range 4, (u : ℚ)⁻¹ = 11 / 6 := by norm_num [sum_range_succ]
    have most := (averageCount_mono (m := 4) fits).1 low
    rw [terms] at most
    have calibrated : averageCount T ≤ 2 := by linarith
    exact iff_of_true calibrated (by omega)
  rcases Nat.le_total (5 * 2 ^ 192) (T + 1) with high | high
  -- from the end of the fourth on
  · exact iff_of_false (not_le.mpr (averageCount_inflated fits high)) (by omega)
  -- in the fourth block the average is linear
  · rw [averageCount_fourth low high]
    have cast : 65535 * (T + 1) ≤ 152919 * 2 ^ 193 ↔
        (65535 * (T + 1) : ℚ) ≤ 152919 * 2 ^ 193 := by
      exact_mod_cast Iff.rfl
    rw [cast]
    constructor
    · intro calibrated
      linarith
    · intro small
      linarith

/-- On a channel with a target of the range, the readers count at most two hashes for one
exactly up to the threshold, and never less than a quarter. What they count for a header is what
the pool credits, if it accepts the share. -/
theorem credit_calibrated_iff {T : Nat} (above : 2 ^ 193 ≤ T) (below : T ≤ 0xFFFF * 2 ^ 208) :
    (1 / 4 ≤ averageCount T ∧ averageCount T ≤ 2 ↔ 65535 * (T + 1) ≤ 152919 * 2 ^ 193) ∧
    ∀ (X : Externals) (channel : ChannelInfo) share header, channel.shareTarget = T →
      countedHashes T (workHash X header) =
        if displayHash (header.blockHash X.sha256d) > Bytes.hexEncode channel.channelTargetBe.data ∨
            hashUpper (creditOf X channel share header).blockHashBe = 0 then 0
        else 2 ^ 32 * (creditOf X channel share header).difficulty := by
  refine ⟨averageCount_bounded_iff above below, ?_⟩
  rintro X channel share header rfl
  exact countedHashes_workHash X channel share header

/-- The hardest target of the range. -/
theorem credit_calibrated_hardest :
    1 / 4 ≤ averageCount (2 ^ 193) ∧ averageCount (2 ^ 193) ≤ 2 :=
  (credit_calibrated_iff le_rfl (by norm_num)).1.mpr (by norm_num)

/-- At difficulty one, the target of all but the fastest miners, it is more. -/
theorem credit_inflated_easiest :
    ¬∀ T : Nat, 2 ^ 193 ≤ T → T ≤ 0xFFFF * 2 ^ 208 →
      1 / 4 ≤ averageCount T ∧ averageCount T ≤ 2 := by
  intro calibrated
  have most := (calibrated (0xFFFF * 2 ^ 208) (by norm_num) le_rfl).2
  exact absurd most (not_le.mpr (averageCount_inflated (by norm_num) (by norm_num)))

end MiningPool
