import Mathlib.Tactic.IntervalCases
import Mathlib.Tactic.Positivity
import Mathlib.Tactic.Ring
import MiningPool.NodeIpc
import MiningPool.Stratum.Target

/-!
# Decoders of compact targets

The header bits are decoded in three places: twice by hand, for share verdicts, and by
`Target::from` for the template. Each is compared with the target of the consensus rules.
-/

namespace MiningPool

open Bitcoin

/-! ### The consensus target -/

def compactExponent (bits : UInt32) : Nat := bits.toNat / 2 ^ 24

/-- The low 24 bits. The topmost of them is the sign. -/
def compactLow (bits : UInt32) : Nat := bits.toNat % 2 ^ 24

/-- The mantissa times `256 ^ (exponent - 3)`, rounded down. A negative mantissa is zero. -/
def consensusTarget (bits : UInt32) : Nat :=
  (if 2 ^ 23 ≤ compactLow bits then 0 else compactLow bits) * 256 ^ compactExponent bits / 256 ^ 3

/-! ### The decoder written by hand -/

private theorem compact_fields (bits : UInt32) : (bits >>> 24).toNat = compactExponent bits ∧
    (bits &&& 0x007fffff).toNat = compactLow bits % 2 ^ 23 := by
  constructor
  · rw [UInt32.toNat_shiftRight, Nat.shiftRight_eq_div_pow]
    rfl
  · rw [UInt32.toNat_and, compactLow]
    refine (Nat.and_two_pow_sub_one_eq_mod _ 23).trans ?_
    omega

private theorem low_byte (x : UInt32) : (x &&& 0xff).toUInt8.toNat = x.toNat % 2 ^ 8 := by
  rw [UInt32.toNat_toUInt8, UInt32.toNat_and]
  exact (congrArg (· % 2 ^ 8) (Nat.and_two_pow_sub_one_eq_mod _ 8)).trans (Nat.mod_mod _ _)

private theorem shifted (x : UInt32) : (x >>> 16).toNat = x.toNat / 2 ^ 16 ∧
    (x >>> 8).toNat = x.toNat / 2 ^ 8 := by
  rw [UInt32.toNat_shiftRight, UInt32.toNat_shiftRight, Nat.shiftRight_eq_div_pow,
    Nat.shiftRight_eq_div_pow]
  exact ⟨rfl, rfl⟩

/-- Three bytes written into zeros. -/
private theorem set_three {i : Nat} (inside : i ≤ 29) (a b c : UInt8) :
    (((List.replicate 32 (0 : UInt8)).set i a).set (i + 1) b).set (i + 2) c =
      List.replicate i 0 ++ [a, b, c] ++ List.replicate (29 - i) 0 := by
  interval_cases i <;> rfl

/-- The number that a hex string spells. -/
def hexNumber (cs : List Char) : Option Nat := (Bytes.hexDecode cs).map Bytes.ofBE

/-- The decoder ignores the sign. -/
theorem compactToTargetBe_eq (bits : UInt32) : Bytes.ofBE (compactToTargetBe bits).data =
    if 3 ≤ compactExponent bits ∧ compactExponent bits ≤ 32 then
      compactLow bits % 2 ^ 23 * 256 ^ (compactExponent bits - 3) else 0 := by
  obtain ⟨exponent, mantissa⟩ := compact_fields bits
  obtain ⟨upper, middle⟩ := shifted (bits &&& 0x007fffff)
  unfold compactToTargetBe
  simp only [exponent]
  split
  next inside =>
    have bytes := set_three (show 32 - compactExponent bits ≤ 29 by omega)
      (((bits &&& 0x007fffff) >>> 16) &&& 0xff).toUInt8
      (((bits &&& 0x007fffff) >>> 8) &&& 0xff).toUInt8
      ((bits &&& 0x007fffff) &&& 0xff).toUInt8
    have rest : 29 - (32 - compactExponent bits) = compactExponent bits - 3 := by omega
    simp only [Bytes.set, Bytes.zeros, bytes, Bytes.ofBE_append, Bytes.ofBE_replicate_zero,
      Bytes.ofBE_cons, Bytes.ofBE_nil, low_byte, upper, middle, mantissa, List.length_replicate,
      rest, List.length_cons, List.length_nil]
    -- the three bytes are those of the mantissa
    have digits : compactLow bits % 2 ^ 23 / 2 ^ 16 % 2 ^ 8 * 256 ^ (0 + 1 + 1) +
        (compactLow bits % 2 ^ 23 / 2 ^ 8 % 2 ^ 8 * 256 ^ (0 + 1) +
          (compactLow bits % 2 ^ 23 % 2 ^ 8 * 256 ^ 0 + 0)) = compactLow bits % 2 ^ 23 := by
      omega
    rw [digits]
    ring
  next => exact Bytes.ofBE_replicate_zero 32

theorem compactToTargetHex_eq (bits : UInt32) :
    hexNumber (compactToTargetHex bits) = some (Bytes.ofBE (compactToTargetBe bits).data) := by
  rw [hexNumber, compactToTargetHex, Bytes.hexDecode_hexEncode, Option.map_some]

/-! ### `Target::from` -/

/-- The sign is seen only if it is still the topmost of 24 bits after the shift. -/
theorem targetOfCompact_eq (bits : UInt32) : Bytes.ofLE (targetOfCompact bits).data =
    if compactExponent bits ≤ 3 then
      (if compactLow bits / 256 ^ (3 - compactExponent bits) > 0x7fffff then 0
        else compactLow bits / 256 ^ (3 - compactExponent bits))
    else if compactLow bits > 0x7fffff then 0
    else compactLow bits * 2 ^ (8 * (compactExponent bits - 3) % 256) % 256 ^ 32 := by
  unfold targetOfCompact
  simp only [← compactExponent.eq_1, ← compactLow.eq_1]
  -- below exponent 3 the mantissa is only shifted right
  have small : compactLow bits / 256 ^ (3 - compactExponent bits) < 256 ^ 32 := by
    refine lt_of_le_of_lt (Nat.div_le_self _ _) ?_
    have low : compactLow bits < 2 ^ 24 := Nat.mod_lt _ (by decide)
    omega
  split
  · split
    · rfl
    · rw [Bytes.ofLE_toLE_mod, Nat.zero_mod, pow_zero, mul_one, Nat.mod_eq_of_lt small]
  · split
    · rfl
    · rw [Bytes.ofLE_toLE_mod]

/-! ### Agreement -/

/-- The mantissa with its sign. -/
private def signed (bits : UInt32) : Nat := if 2 ^ 23 ≤ compactLow bits then 0 else compactLow bits

private theorem consensusTarget_eq {bits : UInt32} (shifts : 3 ≤ compactExponent bits) :
    consensusTarget bits = signed bits * 256 ^ (compactExponent bits - 3) := by
  have split : 256 ^ compactExponent bits = 256 ^ (compactExponent bits - 3) * 256 ^ 3 := by
    rw [← pow_add, Nat.sub_add_cancel shifts]
  rw [consensusTarget, split, ← mul_assoc, Nat.mul_div_cancel _ (by decide), signed]

/-- From exponent 3 on, `Target::from` is the consensus rule as long as the target fits. -/
private theorem targetOfCompact_consensus {bits : UInt32} (shifts : 3 ≤ compactExponent bits)
    (fits : signed bits = 0 ∨ compactExponent bits ≤ 32) :
    Bytes.ofLE (targetOfCompact bits).data = consensusTarget bits := by
  have low : compactLow bits < 2 ^ 24 := Nat.mod_lt _ (by decide)
  rw [consensusTarget_eq shifts, targetOfCompact_eq]
  -- a negative target is zero in both
  by_cases negative : 2 ^ 23 ≤ compactLow bits
  · have zero : signed bits = 0 := if_pos negative
    have above : compactLow bits > 0x7fffff := by omega
    rw [zero, Nat.zero_mul]
    by_cases three : compactExponent bits ≤ 3
    · have same : 3 - compactExponent bits = 0 := by omega
      rw [if_pos three, same, pow_zero, Nat.div_one, if_pos above]
    · rw [if_neg three, if_pos above]
  · have plain : signed bits = compactLow bits := if_neg negative
    have below : ¬compactLow bits > 0x7fffff := by omega
    rw [plain] at fits ⊢
    by_cases three : compactExponent bits ≤ 3
    · have same : 3 - compactExponent bits = 0 := by omega
      have same' : compactExponent bits - 3 = 0 := by omega
      rw [if_pos three, same, same', pow_zero, Nat.div_one, if_neg below, mul_one]
    · rw [if_neg three, if_neg below]
      -- a mantissa of zero fits at any exponent
      rcases fits with zero | short
      · rw [zero, Nat.zero_mul, Nat.zero_mul, Nat.zero_mod]
      · have shift : 8 * (compactExponent bits - 3) % 256 = 8 * (compactExponent bits - 3) :=
          Nat.mod_eq_of_lt (by omega)
        have bytes : 2 ^ (8 * (compactExponent bits - 3)) = 256 ^ (compactExponent bits - 3) := by
          rw [pow_mul]
          rfl
        have fit : compactLow bits * 256 ^ (compactExponent bits - 3) < 256 ^ 32 := calc
          _ < 256 ^ 3 * 256 ^ (compactExponent bits - 3) :=
            Nat.mul_lt_mul_of_pos_right (by omega) (by positivity)
          _ = 256 ^ (3 + (compactExponent bits - 3)) := (pow_add ..).symm
          _ ≤ 256 ^ 32 := Nat.pow_le_pow_right (by decide) (by omega)
        rw [shift, bytes, Nat.mod_eq_of_lt fit]

/-- The exponent is one that the decoder written by hand handles and the mantissa is not
negative, or the target is zero for all. -/
def DecodersAgree (bits : UInt32) : Prop :=
  let exponent := compactExponent bits
  let low := compactLow bits
  exponent = 0 ∨ (exponent = 1 ∧ low < 2 ^ 16) ∨ (exponent = 2 ∧ low < 2 ^ 8) ∨
    (3 ≤ exponent ∧ exponent ≤ 32 ∧ low ≤ 2 ^ 23) ∨ (33 ≤ exponent ∧ (2 ^ 23 ≤ low ∨ low = 0))

instance (bits : UInt32) : Decidable (DecodersAgree bits) :=
  inferInstanceAs (Decidable (_ ∨ _ ∨ _ ∨ _ ∨ _))

/-- Below exponent 3 the decoder written by hand gives zero, and `Target::from` shifts the sign
into the mantissa. -/
private theorem small_exponents {bits : UInt32} (small : compactExponent bits < 3) :
    (consensusTarget bits = 0 ∧ Bytes.ofLE (targetOfCompact bits).data = consensusTarget bits) ↔
      DecodersAgree bits := by
  have low : compactLow bits < 2 ^ 24 := Nat.mod_lt _ (by decide)
  have cases_ : compactExponent bits = 0 ∨ compactExponent bits = 1 ∨ compactExponent bits = 2 := by
    omega
  rw [targetOfCompact_eq, if_pos (by omega), consensusTarget, DecodersAgree]
  rcases cases_ with exponent | exponent | exponent
  · simp only [exponent, Nat.reduceSub, Nat.reducePow, true_or, iff_true]
    split_ifs <;> omega
  · have one :
        (1 : Nat) = 1 ∧ ¬(1 : Nat) = 0 ∧ ¬(1 : Nat) = 2 ∧ ¬(3 : Nat) ≤ 1 ∧ ¬(33 : Nat) ≤ 1 := by
      decide
    simp only [exponent, Nat.reduceSub, Nat.reducePow, one, true_and, false_and, false_or, or_false]
    split_ifs <;> omega
  · have two : ¬(2 : Nat) = 0 ∧ ¬(2 : Nat) = 1 ∧ ¬(3 : Nat) ≤ 2 ∧ ¬(33 : Nat) ≤ 2 := by decide
    simp only [exponent, Nat.reduceSub, Nat.reducePow, two, true_and, false_and, false_or, or_false]
    split_ifs <;> omega

/-- From exponent 3 on the decoders differ in the sign and in what is too large for the one
written by hand. -/
private theorem large_exponents {bits : UInt32} (large : 3 ≤ compactExponent bits) :
    Bytes.ofBE (compactToTargetBe bits).data = consensusTarget bits ↔ DecodersAgree bits := by
  have low : compactLow bits < 2 ^ 24 := Nat.mod_lt _ (by decide)
  have positive : 0 < 256 ^ (compactExponent bits - 3) := by positivity
  rw [compactToTargetBe_eq, consensusTarget_eq large]
  by_cases handled : compactExponent bits ≤ 32
  · rw [if_pos ⟨large, handled⟩, Nat.mul_left_inj positive.ne', signed, DecodersAgree]
    split_ifs <;> omega
  · -- what the decoder does not handle it takes for zero
    have nothing : 0 = signed bits * 256 ^ (compactExponent bits - 3) ↔ signed bits = 0 := by
      rw [eq_comm, Nat.mul_eq_zero, or_iff_left positive.ne']
    rw [if_neg (fun both => handled both.2), nothing, signed, DecodersAgree]
    split_ifs <;> omega

/-- The template of a header carries its bits and what `Target::from` makes of them. The two
decoders written by hand and `Target::from` all give the target of the consensus rules if
and only if the bits are among those above. -/
theorem compact_decoders_iff (bits : UInt32) :
    (∀ templateId header cb path raw, header.bits = bits →
      buildRawTemplate templateId header cb path = .ok raw →
      raw.setNewPrevHash.nBits = bits ∧ raw.setNewPrevHash.target = targetOfCompact bits) ∧
    ((Bytes.ofBE (compactToTargetBe bits).data = consensusTarget bits ∧
        hexNumber (compactToTargetHex bits) = some (consensusTarget bits) ∧
        Bytes.ofLE (targetOfCompact bits).data = consensusTarget bits) ↔ DecodersAgree bits) := by
  constructor
  · rintro templateId header cb path raw rfl built
    obtain ⟨_, _, _, _, _, _, _, _, _, _, _, _, snph⟩ := buildRawTemplate_ok built
    rw [snph]
    exact ⟨rfl, rfl⟩
  rw [compactToTargetHex_eq, Option.some.injEq, and_self_left]
  by_cases large : 3 ≤ compactExponent bits
  · rw [← large_exponents large, and_iff_left_iff_imp, large_exponents large]
    intro agree
    apply targetOfCompact_consensus large
    rw [signed]
    rw [DecodersAgree] at agree
    split_ifs <;> omega
  · rw [← small_exponents (by omega), compactToTargetBe_eq, if_neg (fun both => large both.1),
      eq_comm (a := 0)]

/-- The bits of the test network are among them. -/
theorem compact_decoders_regtest :
    (regtestTemplate.setNewPrevHash.nBits = 0x207fffff ∧
      regtestTemplate.setNewPrevHash.target = targetOfCompact 0x207fffff) ∧
    Bytes.ofBE (compactToTargetBe 0x207fffff).data = consensusTarget 0x207fffff ∧
      hexNumber (compactToTargetHex 0x207fffff) = some (consensusTarget 0x207fffff) ∧
      Bytes.ofLE (targetOfCompact 0x207fffff).data = consensusTarget 0x207fffff := by
  obtain ⟨carries, agree⟩ := compact_decoders_iff 0x207fffff
  exact ⟨carries 0 regtestBlock.header regtestBlock.coinbase regtestBlock.merklePath
    regtestTemplate rfl rfl, agree.mpr (by decide)⟩

/-- With the sign bit set the decoder written by hand keeps the mantissa. -/
theorem negative_target_decoded :
    ¬∀ bits : UInt32, consensusTarget bits < 2 ^ 256 →
      Bytes.ofBE (compactToTargetBe bits).data = consensusTarget bits ∧
        hexNumber (compactToTargetHex bits) = some (consensusTarget bits) ∧
        Bytes.ofLE (targetOfCompact bits).data = consensusTarget bits := by
  intro agree
  have byHand := (agree 0x0480ffff (by decide)).1
  exact absurd byHand (by decide +kernel)

end MiningPool
