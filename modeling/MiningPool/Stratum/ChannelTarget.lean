import Mathlib.Tactic.NormNum
import Mathlib.Tactic.Positivity
import Mathlib.Tactic.GCongr
import Mathlib.Tactic.Ring
import MiningPool.Stratum.Target

/-!
# The division of the channel target

The byte-wise long division of `hashrate_to_target_be`. It is exact as long as 256 times
the remainder fits into 128 bits, which holds for the difficulty of every finite rate. The
difficulty to which an infinite rate saturates is too large.
-/

namespace MiningPool

/-! ### The difficulty -/

/-- The difficulties that the cast can give: those below `2 ^ 101`, and the largest 128-bit
integer. -/
def CastDifficulty (difficulty : Nat) : Prop :=
  1 ≤ difficulty ∧ difficulty < 2 ^ 101 ∨ difficulty = 2 ^ 128 - 1

/-- The bits of the 32-bit infinity. -/
def f32Infinity : UInt32 := 0x7f800000

private theorem f32_fields (bits : UInt32) : (bits >>> 31).toNat = bits.toNat / 2 ^ 31 ∧
    ((bits >>> 23) &&& 0xff).toNat = bits.toNat / 2 ^ 23 % 2 ^ 8 ∧
    (bits &&& 0x7fffff).toNat = bits.toNat % 2 ^ 23 := by
  refine ⟨?_, ?_, ?_⟩
  · rw [UInt32.toNat_shiftRight, Nat.shiftRight_eq_div_pow]
    rfl
  · rw [UInt32.toNat_and, UInt32.toNat_shiftRight, Nat.shiftRight_eq_div_pow]
    exact Nat.and_two_pow_sub_one_eq_mod _ 8
  · rw [UInt32.toNat_and]
    exact Nat.and_two_pow_sub_one_eq_mod _ 23

private theorem finite_difficulty {mantissa exponent : Nat} (fits : mantissa < 2 ^ 24)
    (finite : exponent < 255) :
    mantissa * 30 * 2 ^ max exponent 1 / 2 ^ (150 + 32) < 2 ^ 101 := by
  rw [Nat.div_lt_iff_lt_mul (by positivity)]
  have scale : 2 ^ max exponent 1 ≤ 2 ^ 254 := Nat.pow_le_pow_right (by decide) (by omega)
  calc
    mantissa * 30 * 2 ^ max exponent 1 ≤ (2 ^ 24 * 30) * 2 ^ 254 := by gcongr
    _ < 2 ^ 101 * 2 ^ (150 + 32) := by norm_num

/-- A finite rate has a difficulty below `2 ^ 101`; only positive infinity saturates. -/
theorem hashrateDifficulty_cast (hashrateHps : UInt32) :
    CastDifficulty (hashrateDifficulty hashrateHps) ∧
      (hashrateDifficulty hashrateHps = 2 ^ 128 - 1 ↔ hashrateHps = f32Infinity) := by
  obtain ⟨sign, exponent, fraction⟩ := f32_fields hashrateHps
  have word := hashrateHps.toNat_lt
  have infinity : hashrateHps = f32Infinity ↔ hashrateHps.toNat = 255 * 2 ^ 23 := by
    rw [← UInt32.toNat_inj]
    rfl
  have positive : (hashrateHps >>> 31 == 1) = false ↔ hashrateHps.toNat < 2 ^ 31 := by
    rw [beq_eq_false_iff_ne, ne_eq, ← UInt32.toNat_inj, sign]
    change ¬_ = 1 ↔ _
    omega
  rw [infinity, CastDifficulty]
  unfold hashrateDifficulty
  simp only [exponent, fraction]
  split
  -- infinities and no numbers; of these only positive infinity saturates
  next special =>
    split
    next infinite =>
      have above := positive.mp infinite.2
      exact ⟨.inr rfl, by omega⟩
    next other =>
      have different : hashrateHps.toNat ≠ 255 * 2 ^ 23 := by
        intro same
        exact other ⟨by omega, positive.mpr (by omega)⟩
      exact ⟨.inl (by decide), by omega⟩
  next normal =>
    have different : hashrateHps.toNat ≠ 255 * 2 ^ 23 := by omega
    split
    · exact ⟨.inl (by decide), by omega⟩
    · have mantissa : (if hashrateHps.toNat / 2 ^ 23 % 2 ^ 8 = 0 then hashrateHps.toNat % 2 ^ 23
          else 2 ^ 23 + hashrateHps.toNat % 2 ^ 23) < 2 ^ 24 := by
        split <;> omega
      have finite : hashrateHps.toNat / 2 ^ 23 % 2 ^ 8 < 255 := by omega
      have bound := finite_difficulty mantissa finite
      generalize _ / 2 ^ (150 + 32) = quotient at *
      omega

/-! ### The division -/

/-- No step of the division goes wrong: the divisor is not zero, 128 bits hold the value, and
the quotient fits into a byte. -/
def DivisionSafe (difficulty : Nat) : Nat → List UInt8 → Prop
  | _, [] => True
  | carry, b :: bs =>
    difficulty ≠ 0 ∧ carry * 256 + b.toNat < 2 ^ 128 ∧
      (carry * 256 + b.toNat) / difficulty < 256 ∧
      DivisionSafe difficulty ((carry * 256 + b.toNat) % difficulty) bs

instance DivisionSafe.decide (difficulty : Nat) :
    ∀ carry bs, Decidable (DivisionSafe difficulty carry bs)
  | _, [] => isTrue trivial
  | carry, b :: bs =>
    have := DivisionSafe.decide difficulty ((carry * 256 + b.toNat) % difficulty) bs
    inferInstanceAs (Decidable (_ ∧ _ ∧ _ ∧ _))

/-- As long as the remainder is below a divisor of 120 bits, the digits spell the quotient of
the whole number. -/
theorem longDivision_exact {difficulty : Nat} (small : difficulty ≤ 2 ^ 120) (bs : List UInt8)
    (carry : Nat) (remainder : carry < difficulty) :
    DivisionSafe difficulty carry bs ∧ Bytes.ofBE (longDivision difficulty carry bs) =
      (carry * 256 ^ bs.length + Bytes.ofBE bs) / difficulty := by
  induction bs generalizing carry with
  | nil =>
    refine ⟨trivial, ?_⟩
    simp [longDivision, Nat.div_eq_of_lt remainder]
  | cons b bs ih =>
    have byte := b.toNat_lt
    have positive : 0 < difficulty := by omega
    have fits : carry * 256 + b.toNat < 2 ^ 128 := by omega
    have digit : (carry * 256 + b.toNat) / difficulty < 256 := by
      rw [Nat.div_lt_iff_lt_mul positive]
      omega
    obtain ⟨safe, rest⟩ := ih _ (Nat.mod_lt (carry * 256 + b.toNat) positive)
    refine ⟨⟨positive.ne', fits, digit, safe⟩, ?_⟩
    rw [longDivision, Nat.mod_eq_of_lt fits, Bytes.ofBE_cons, rest, longDivision_length,
      UInt8.toNat_ofNat_of_lt' digit, Bytes.ofBE_cons, List.length_cons, pow_succ]
    -- what the first digit takes out of the dividend is a multiple of the divisor
    have split := Nat.div_add_mod (carry * 256 + b.toNat) difficulty
    generalize (carry * 256 + b.toNat) / difficulty = q at *
    generalize (carry * 256 + b.toNat) % difficulty = r at *
    have whole : carry * (256 ^ bs.length * 256) + (b.toNat * 256 ^ bs.length + Bytes.ofBE bs) =
        difficulty * (q * 256 ^ bs.length) + (r * 256 ^ bs.length + Bytes.ofBE bs) := by
      calc
        _ = (carry * 256 + b.toNat) * 256 ^ bs.length + Bytes.ofBE bs := by ring
        _ = (difficulty * q + r) * 256 ^ bs.length + Bytes.ofBE bs := by rw [split]
        _ = _ := by ring
    rw [whole, Nat.mul_add_div positive]

/-! ### The target -/

/-- The target of a difficulty, as the loop leaves it. -/
def divisionTarget (difficulty : Nat) : Nat :=
  Bytes.ofBE (longDivision difficulty 0 pdiff1.data)

theorem ofBE_hashrateToTargetBe (hashrateHps : UInt32) :
    Bytes.ofBE (hashrateToTargetBe hashrateHps).data =
      divisionTarget (hashrateDifficulty hashrateHps) := rfl

theorem divisionTarget_finite {difficulty : Nat} (positive : 1 ≤ difficulty)
    (finite : difficulty < 2 ^ 101) : DivisionSafe difficulty 0 pdiff1.data ∧
      divisionTarget difficulty = 0xFFFF * 2 ^ 208 / difficulty := by
  have reference : Bytes.ofBE pdiff1.data = 0xFFFF * 2 ^ 208 := by decide
  obtain ⟨safe, exact_⟩ :=
    longDivision_exact (by omega : difficulty ≤ 2 ^ 120) pdiff1.data 0 positive
  rw [reference, Nat.zero_mul, Nat.zero_add] at exact_
  exact ⟨safe, exact_⟩

/-- Every rate has one of the difficulties, only an infinite one the largest. The division by one
of them goes through without overflow, spells the exact quotient, is not zero and falls as
the difficulty grows, if and only if the difficulty is not the largest. -/
theorem channel_target_iff {difficulty : Nat} (cast : CastDifficulty difficulty) :
    (∀ hashrateHps : UInt32, CastDifficulty (hashrateDifficulty hashrateHps) ∧
      (hashrateDifficulty hashrateHps = 2 ^ 128 - 1 ↔ hashrateHps = f32Infinity) ∧
      Bytes.ofBE (hashrateToTargetBe hashrateHps).data =
        divisionTarget (hashrateDifficulty hashrateHps)) ∧
    (DivisionSafe difficulty 0 pdiff1.data ∧
        divisionTarget difficulty = 0xFFFF * 2 ^ 208 / difficulty ∧
        divisionTarget difficulty ≠ 0 ∧
        (∀ easier, CastDifficulty easier → easier ≤ difficulty →
          divisionTarget difficulty ≤ divisionTarget easier) ↔
      difficulty ≠ 2 ^ 128 - 1) := by
  refine ⟨fun hashrateHps => ?_, ?_, ?_⟩
  · obtain ⟨cast, infinite⟩ := hashrateDifficulty_cast hashrateHps
    exact ⟨cast, infinite, ofBE_hashrateToTargetBe hashrateHps⟩
  · rintro ⟨safe, _⟩ rfl
    -- the second step already leaves 128 bits
    exact absurd safe (by decide +kernel)
  · intro finite
    obtain ⟨positive, below⟩ := cast.resolve_right finite
    obtain ⟨safe, exact_⟩ := divisionTarget_finite positive below
    refine ⟨safe, exact_, ?_, ?_⟩
    · rw [exact_, Nat.div_ne_zero_iff]
      omega
    · intro easier cast' smaller
      have positive' : 1 ≤ easier := by
        rcases cast' with ⟨positive', _⟩ | rfl
        · exact positive'
        · decide
      rw [exact_, (divisionTarget_finite positive' (by omega)).2]
      exact Nat.div_le_div_left smaller positive'

/-- Difficulty 1, that of every rate up to 143 MH/s. -/
theorem channel_target_iff_one : DivisionSafe 1 0 pdiff1.data ∧
    divisionTarget 1 = 0xFFFF * 2 ^ 208 / 1 ∧ divisionTarget 1 ≠ 0 ∧
    (∀ easier, CastDifficulty easier → easier ≤ 1 → divisionTarget 1 ≤ divisionTarget easier) := by
  have cast : CastDifficulty 1 := .inl (by decide)
  exact (channel_target_iff cast).2.mpr (by decide)

/-- A client that declares an infinite rate gets a division that overflows, and in a release
build a target of zero. -/
theorem infinite_rate_overflows :
    ¬∀ hashrateHps : UInt32, DivisionSafe (hashrateDifficulty hashrateHps) 0 pdiff1.data ∧
      Bytes.ofBE (hashrateToTargetBe hashrateHps).data =
        0xFFFF * 2 ^ 208 / hashrateDifficulty hashrateHps ∧
      Bytes.ofBE (hashrateToTargetBe hashrateHps).data ≠ 0 := by
  intro exact_
  exact (exact_ f32Infinity).2.2 (by decide +kernel)

end MiningPool
