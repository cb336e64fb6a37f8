import Mathlib.Data.Char
import Mathlib.Data.List.Lex
import Mathlib.Data.Nat.Digits.Lemmas

/-!
# Byte strings

Byte strings of a fixed width, the numerals they spell in either byte order, and
lowercase hex. The order facts at the end say that comparing two byte strings of
one length, or their hex spellings, is comparing the big-endian numerals.
-/

/-- A byte string of exactly `n` bytes. -/
structure Bytes (n : Nat) where
  data : List UInt8
  size : data.length = n
deriving DecidableEq

namespace Bytes

variable {n : Nat}

attribute [simp] Bytes.size

@[ext] theorem ext {a b : Bytes n} (h : a.data = b.data) : a = b := by
  cases a; cases b; simpa using h

def zeros (n : Nat) : Bytes n := ⟨List.replicate n 0, List.length_replicate⟩

def reverse (a : Bytes n) : Bytes n := ⟨a.data.reverse, by simp⟩

@[simp] theorem reverse_data (a : Bytes n) : a.reverse.data = a.data.reverse := rfl

/-- Write one byte; a position past the end leaves the bytes as they are. -/
def set (a : Bytes n) (i : Nat) (b : UInt8) : Bytes n := ⟨a.data.set i b, by simp⟩

/-- The bytes as a string of `n`, or nothing when there are more or fewer. -/
def ofList? (n : Nat) (bs : List UInt8) : Option (Bytes n) :=
  if h : bs.length = n then some ⟨bs, h⟩ else none

/-! ### Numerals -/

/-- The number a byte string spells, least significant byte first. -/
def ofLE (bs : List UInt8) : Nat := Nat.ofDigits 256 (bs.map UInt8.toNat)

/-- The number a byte string spells, most significant byte first. -/
def ofBE (bs : List UInt8) : Nat := ofLE bs.reverse

/-- The lowest `k` bytes of a number, least significant byte first. -/
def toLE : Nat → Nat → List UInt8
  | 0, _ => []
  | k + 1, m => UInt8.ofNat m :: toLE k (m / 256)

/-- The lowest `k` bytes of a number, most significant byte first. -/
def toBE (k m : Nat) : List UInt8 := (toLE k m).reverse

@[simp] theorem ofLE_nil : ofLE [] = 0 := rfl

@[simp] theorem ofLE_cons (b : UInt8) (bs : List UInt8) :
    ofLE (b :: bs) = b.toNat + 256 * ofLE bs := by
  simp only [ofLE, List.map_cons, Nat.ofDigits_cons]

theorem ofLE_append (xs ys : List UInt8) :
    ofLE (xs ++ ys) = ofLE xs + 256 ^ xs.length * ofLE ys := by
  simp only [ofLE, List.map_append, Nat.ofDigits_append, List.length_map]

@[simp] theorem ofBE_nil : ofBE [] = 0 := rfl

@[simp] theorem ofBE_cons (b : UInt8) (bs : List UInt8) :
    ofBE (b :: bs) = b.toNat * 256 ^ bs.length + ofBE bs := by
  simp only [ofBE, List.reverse_cons, ofLE_append, List.length_reverse, ofLE_cons, ofLE_nil]
  rw [Nat.mul_zero, Nat.add_zero, Nat.mul_comm, Nat.add_comm]

theorem ofBE_append (xs ys : List UInt8) :
    ofBE (xs ++ ys) = ofBE xs * 256 ^ ys.length + ofBE ys := by
  rw [ofBE, List.reverse_append, ofLE_append, List.length_reverse, Nat.add_comm, Nat.mul_comm]
  rfl

@[simp] theorem ofBE_replicate_zero (k : Nat) : ofBE (List.replicate k 0) = 0 := by
  induction k with
  | zero => rfl
  | succ k ih =>
    rw [List.replicate_succ, ofBE_cons, ih]
    exact Nat.zero_mul _

theorem ofBE_reverse (bs : List UInt8) : ofBE bs.reverse = ofLE bs := by
  simp only [ofBE, List.reverse_reverse]

theorem ofLE_lt (bs : List UInt8) : ofLE bs < 256 ^ bs.length := by
  have bound : ∀ d ∈ bs.map UInt8.toNat, d < 256 := by
    intro d hd
    obtain ⟨b, _, rfl⟩ := List.mem_map.mp hd
    exact b.toNat_lt
  simpa [ofLE] using Nat.ofDigits_lt_base_pow_length (by omega) bound

theorem ofBE_lt (bs : List UInt8) : ofBE bs < 256 ^ bs.length := by
  simpa [ofBE] using ofLE_lt bs.reverse

@[simp] theorem toLE_length (k m : Nat) : (toLE k m).length = k := by
  induction k generalizing m with
  | zero => rfl
  | succ k ih => simp only [toLE, List.length_cons, ih]

@[simp] theorem toBE_length (k m : Nat) : (toBE k m).length = k := by
  simp only [toBE, List.length_reverse, toLE_length]

theorem ofLE_toLE_mod (k m : Nat) : ofLE (toLE k m) = m % 256 ^ k := by
  induction k generalizing m with
  | zero => rw [toLE, ofLE_nil, pow_zero, Nat.mod_one]
  | succ k ih =>
    rw [toLE, ofLE_cons, ih, pow_succ', Nat.mod_mul]
    rfl

theorem ofLE_toLE (k m : Nat) (h : m < 256 ^ k) : ofLE (toLE k m) = m := by
  rw [ofLE_toLE_mod, Nat.mod_eq_of_lt h]

theorem toLE_ofLE (bs : List UInt8) : toLE bs.length (ofLE bs) = bs := by
  induction bs with
  | nil => rfl
  | cons b bs ih =>
    have low : UInt8.ofNat (b.toNat + 256 * ofLE bs) = b := by
      apply UInt8.toNat_inj.mp
      have := b.toNat_lt
      rw [UInt8.toNat_ofNat']
      omega
    have high : (b.toNat + 256 * ofLE bs) / 256 = ofLE bs := by
      have := b.toNat_lt
      omega
    simp only [List.length_cons, toLE, ofLE_cons, low, high, ih]

theorem toLE_injective (k a b : Nat) (ha : a < 256 ^ k) (hb : b < 256 ^ k)
    (h : toLE k a = toLE k b) : a = b := by
  rw [← ofLE_toLE k a ha, h, ofLE_toLE k b hb]

/-! ### Order -/

/-- Byte strings of one length compare as the big-endian numerals they spell. -/
theorem lt_iff_ofBE_lt {xs ys : List UInt8} (len : xs.length = ys.length) :
    xs < ys ↔ ofBE xs < ofBE ys := by
  induction xs generalizing ys with
  | nil =>
    obtain rfl : ys = [] := List.eq_nil_of_length_eq_zero len.symm
    simp
  | cons x xs ih =>
    cases ys with
    | nil => cases len
    | cons y ys =>
      have tail : xs.length = ys.length := by simpa using len
      have hx := ofBE_lt xs
      have hy := ofBE_lt ys
      rw [List.cons_lt_cons_iff, ih tail, UInt8.lt_iff_toNat_lt, ← UInt8.toNat_inj, ofBE_cons,
        ofBE_cons, tail]
      rw [tail] at hx
      -- the leading byte decides, and the tails only when the leading bytes agree
      rcases Nat.lt_trichotomy x.toNat y.toNat with less | same | more
      · have := Nat.mul_le_mul_right (256 ^ ys.length) (Nat.succ_le_of_lt less)
        rw [Nat.succ_mul] at this
        constructor
        · intro; omega
        · intro; exact Or.inl less
      · rw [same]
        omega
      · have := Nat.mul_le_mul_right (256 ^ ys.length) (Nat.succ_le_of_lt more)
        rw [Nat.succ_mul] at this
        constructor <;> intro <;> omega

theorem le_iff_ofBE_le {xs ys : List UInt8} (len : xs.length = ys.length) :
    xs ≤ ys ↔ ofBE xs ≤ ofBE ys := by
  rw [← List.not_lt, lt_iff_ofBE_lt len.symm, Nat.not_lt]

/-! ### Hex -/

/-- A lowercase hex digit. -/
def hexDigit (d : Nat) : Char := if d < 10 then Char.ofNat (48 + d) else Char.ofNat (87 + d)

/-- Two lowercase hex digits a byte. -/
def hexEncode : List UInt8 → List Char
  | [] => []
  | b :: bs => hexDigit (b.toNat / 16) :: hexDigit (b.toNat % 16) :: hexEncode bs

private theorem hexDigit_order : ∀ a < 16, ∀ b < 16,
    (hexDigit a < hexDigit b ↔ a < b) ∧ (hexDigit a = hexDigit b ↔ a = b) := by
  decide

/-- Lowercase hex is in ASCII order, so hex strings compare as the bytes they spell. -/
theorem hexEncode_lt_iff (xs ys : List UInt8) : hexEncode xs < hexEncode ys ↔ xs < ys := by
  induction xs generalizing ys with
  | nil => cases ys <;> simp [hexEncode]
  | cons x xs ih =>
    cases ys with
    | nil => simp [hexEncode]
    | cons y ys =>
      have hx := x.toNat_lt
      have hy := y.toNat_lt
      have high := hexDigit_order (x.toNat / 16) (by omega) (y.toNat / 16) (by omega)
      have low := hexDigit_order (x.toNat % 16) (by omega) (y.toNat % 16) (by omega)
      simp only [hexEncode, List.cons_lt_cons_iff, ih, high, low, UInt8.lt_iff_toNat_lt,
        ← UInt8.toNat_inj]
      by_cases rest : xs < ys
      · simp only [rest, and_true]; omega
      · simp only [rest, and_false, or_false]; omega

theorem hexEncode_le_iff (xs ys : List UInt8) : hexEncode xs ≤ hexEncode ys ↔ xs ≤ ys := by
  rw [← not_lt, hexEncode_lt_iff, List.not_lt]

/-- The value of a hex digit of either case. -/
def hexValue (c : Char) : Option Nat :=
  if 48 ≤ c.toNat ∧ c.toNat ≤ 57 then some (c.toNat - 48)
  else if 97 ≤ c.toNat ∧ c.toNat ≤ 102 then some (c.toNat - 87)
  else if 65 ≤ c.toNat ∧ c.toNat ≤ 70 then some (c.toNat - 55)
  else none

/-- Two hex digits a byte, and nothing else. -/
def hexDecode : List Char → Option (List UInt8)
  | [] => some []
  | [_] => none
  | high :: low :: cs => do
    let high ← hexValue high
    let low ← hexValue low
    let bs ← hexDecode cs
    return UInt8.ofNat (16 * high + low) :: bs

private theorem hexValue_ascii : ∀ n < 128, ∀ d ∈ hexValue (Char.ofNat n),
    d < 16 ∧ (Char.ofNat n).toLower = hexDigit d := by
  decide

/-- A hex digit in lower case is the digit of its value. -/
theorem hexValue_eq_some {c : Char} {d : Nat} (h : hexValue c = some d) :
    d < 16 ∧ c.toLower = hexDigit d := by
  have small : c.toNat < 128 := by
    unfold hexValue at h
    split at h
    · omega
    split at h
    · omega
    split at h
    · omega
    · cases h
  have known := hexValue_ascii c.toNat small
  rw [Char.ofNat_toNat] at known
  exact known d h

/-- What decodes is the encoding of the result, up to the case of its letters. -/
theorem hexDecode_eq_some {cs : List Char} {bs : List UInt8} (h : hexDecode cs = some bs) :
    cs.map Char.toLower = hexEncode bs := by
  induction cs using hexDecode.induct generalizing bs with
  | case1 =>
    cases h
    rfl
  | case2 => cases h
  | case3 high low cs ih =>
    simp only [hexDecode, Option.bind_eq_bind, Option.bind_eq_some_iff, Option.pure_def,
      Option.some.injEq] at h
    obtain ⟨x, hx, y, hy, rest, decoded, rfl⟩ := h
    obtain ⟨smallX, lowerX⟩ := hexValue_eq_some hx
    obtain ⟨smallY, lowerY⟩ := hexValue_eq_some hy
    have byte : (UInt8.ofNat (16 * x + y)).toNat = 16 * x + y :=
      UInt8.toNat_ofNat_of_lt' (by simp only [UInt8.size]; omega)
    have upper : (16 * x + y) / 16 = x := by omega
    have lower : (16 * x + y) % 16 = y := by omega
    simp only [List.map_cons, hexEncode, byte, upper, lower, lowerX, lowerY, ih decoded]

private theorem hexValue_hexDigit : ∀ d < 16, hexValue (hexDigit d) = some d := by
  decide

/-- Two digits for each byte, and nothing but digits. -/
theorem hexEncode_digits (bs : List UInt8) :
    (hexEncode bs).length = 2 * bs.length ∧ ∀ c ∈ hexEncode bs, (hexValue c).isSome := by
  induction bs with
  | nil => simp [hexEncode]
  | cons b bs ih =>
    have high := hexValue_hexDigit (b.toNat / 16) (by have := b.toNat_lt; omega)
    have low := hexValue_hexDigit (b.toNat % 16) (by omega)
    constructor
    · simp only [hexEncode, List.length_cons, ih.1]
      omega
    · simp only [hexEncode, List.forall_mem_cons, high, low, Option.isSome_some, true_and]
      exact ih.2

theorem hexDecode_hexEncode (bs : List UInt8) : hexDecode (hexEncode bs) = some bs := by
  induction bs with
  | nil => rfl
  | cons b bs ih =>
    have byte := b.toNat_lt
    have high := hexValue_hexDigit (b.toNat / 16) (by omega)
    have low := hexValue_hexDigit (b.toNat % 16) (by omega)
    have whole : 16 * (b.toNat / 16) + b.toNat % 16 = b.toNat := Nat.div_add_mod _ _
    simp only [hexEncode, hexDecode, high, low, ih, whole, UInt8.ofNat_toNat, Option.bind_eq_bind,
      Option.bind_some, Option.pure_def]

/-- An even number of hex digits decodes. -/
theorem hexDecode_digits {cs : List Char} {n : Nat} (len : cs.length = 2 * n)
    (digits : ∀ c ∈ cs, (hexValue c).isSome) : ∃ bs, hexDecode cs = some bs ∧ bs.length = n := by
  induction cs using hexDecode.induct generalizing n with
  | case1 =>
    rw [List.length_nil] at len
    exact ⟨[], rfl, by simp only [List.length_nil]; omega⟩
  | case2 =>
    rw [List.length_singleton] at len
    omega
  | case3 high low cs ih =>
    simp only [List.mem_cons, forall_eq_or_imp] at digits
    obtain ⟨someHigh, someLow, rest⟩ := digits
    obtain ⟨x, hx⟩ := Option.isSome_iff_exists.mp someHigh
    obtain ⟨y, hy⟩ := Option.isSome_iff_exists.mp someLow
    simp only [List.length_cons] at len
    obtain ⟨bs, decoded, size⟩ := ih (n := n - 1) (by omega) rest
    refine ⟨UInt8.ofNat (16 * x + y) :: bs, ?_, ?_⟩
    · simp only [hexDecode, hx, hy, decoded, Option.bind_eq_bind, Option.bind_some, Option.pure_def]
    · rw [List.length_cons, size]
      omega

end Bytes
