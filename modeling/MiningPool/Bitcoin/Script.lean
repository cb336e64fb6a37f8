import MiningPool.Bitcoin.Transaction

/-!
# Script construction

The instructions that a script builder appends: numbers in Bitcoin's signed-magnitude
form, and byte strings behind the shortest opcode for their length.
-/

namespace Bitcoin

/-- A script in memory. A vector holds less than `2 ^ 63` bytes. -/
abbrev ScriptBuf := {script : Script // script.length < 2 ^ 63}

/-- The loop of `write_scriptint`: base 256 from the low end, the sign in the last bit. -/
def scriptintDigits (neg : Bool) : Nat → Nat → List UInt8
  | 0, _ => []
  | room + 1, abs =>
    if abs > 0xff then UInt8.ofNat (abs % 256) :: scriptintDigits neg room (abs / 256)
    -- a byte of its own for the sign
    else if 0x80 ≤ abs then [UInt8.ofNat abs, if neg then 0x80 else 0]
    else [UInt8.ofNat (if neg then abs + 0x80 else abs)]

/-- The buffer has eight bytes. -/
def writeScriptint (n : Int) : List UInt8 :=
  if n = 0 then [] else scriptintDigits (n < 0) 8 n.natAbs

def pushSlice (data : List UInt8) : Script :=
  (if data.length < 0x4c then [UInt8.ofNat data.length]
  else if data.length < 0x100 then [0x4c, UInt8.ofNat data.length]
  else if data.length < 0x10000 then 0x4d :: Bytes.toLE 2 data.length
  else 0x4e :: Bytes.toLE 4 data.length) ++ data

def pushInt (data : Int) : Script :=
  -- `OP_1NEGATE`, and `OP_1` to `OP_16`
  if data = -1 ∨ 1 ≤ data ∧ data ≤ 16 then [UInt8.ofNat (data - 1 + 0x51).toNat]
  else if data = 0 then [0]
  else pushSlice (writeScriptint data)

theorem pushSlice_short {data : List UInt8} (short : data.length < 0x4c) :
    pushSlice data = UInt8.ofNat data.length :: data := by
  rw [pushSlice, if_pos short]
  rfl

/-- One byte more than the digits of the number, for the sign. -/
private theorem scriptintDigits_length (neg : Bool) {k abs : Nat} (bound : abs < 256 ^ (k + 1))
    (room : Nat) : (scriptintDigits neg room abs).length ≤ k + 2 := by
  induction room generalizing k abs with
  | zero => exact Nat.zero_le _
  | succ room ih =>
    unfold scriptintDigits
    split
    next more =>
      -- a number of more than one digit has a quotient with one digit less
      cases k with
      | zero => omega
      | succ k =>
        have quotient : abs / 256 < 256 ^ (k + 1) := by
          rw [Nat.div_lt_iff_lt_mul (by decide), ← pow_succ]
          exact bound
        exact Nat.succ_le_succ (ih quotient)
    · split
      · exact Nat.le_add_left _ _
      · exact Nat.le_add_left _ _

/-- The push of a 32-bit number has an opcode and at most five bytes. -/
theorem pushInt_length (n : UInt32) : (pushInt n.toNat).length ≤ 6 := by
  unfold pushInt
  split
  · exact Nat.le_add_left 1 5
  split
  · exact Nat.le_add_left 1 5
  next nonzero =>
    have digits : (writeScriptint n.toNat).length ≤ 5 := by
      rw [writeScriptint, if_neg nonzero, Int.natAbs_natCast]
      exact scriptintDigits_length _ (k := 3) n.toNat_lt 8
    rw [pushSlice_short (by omega), List.length_cons]
    omega

/-- Heights of one, two and three bytes; 128 needs a byte for its sign. -/
example : pushInt 16 = [0x60] ∧ pushInt 100 = [1, 100] ∧ pushInt 128 = [2, 0x80, 0] ∧
    pushInt 840000 = [3, 0x40, 0xd1, 0x0c] := by decide

end Bitcoin
