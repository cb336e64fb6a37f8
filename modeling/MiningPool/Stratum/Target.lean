import MiningPool.Jobs

/-!
# Targets and extranonces

The pure helpers of `stratum_sv2.rs`: compact targets, the per-channel share target,
and the 36 bytes between the coinbase halves.
-/

namespace MiningPool

/-! ### Targets -/

def compactToTargetBe (bits : UInt32) : Bytes 32 :=
  let exp := (bits >>> 24).toNat
  let mantissa := bits &&& 0x007fffff
  if 3 ≤ exp ∧ exp ≤ 32 then
    let i := 32 - exp
    -- a byte that would fall past the end is not written
    (((Bytes.zeros 32).set i ((mantissa >>> 16) &&& 0xff).toUInt8).set (i + 1)
      ((mantissa >>> 8) &&& 0xff).toUInt8).set (i + 2) (mantissa &&& 0xff).toUInt8
  else Bytes.zeros 32

/-- The same bytes in lowercase hex. -/
def compactToTargetHex (bits : UInt32) : List Char := Bytes.hexEncode (compactToTargetBe bits).data

/-- The cast of `(hashrate * 30 / 2^32).max(1.0)` to a 128-bit integer, from the bits of
the 32-bit float. Every product and quotient on the way is exact in 64-bit floats.
Infinity saturates, and `max` replaces a NaN. -/
def hashrateDifficulty (hashrateHps : UInt32) : Nat :=
  let negative := hashrateHps >>> 31 == 1
  let exponent := ((hashrateHps >>> 23) &&& 0xff).toNat
  let fraction := (hashrateHps &&& 0x7fffff).toNat
  if exponent = 255 then
    if fraction = 0 ∧ negative = false then 2 ^ 128 - 1 else 1
  else if negative then 1
  else
    let mantissa := if exponent = 0 then fraction else 2 ^ 23 + fraction
    -- the value is `mantissa * 2^(max exponent 1 - 150)`
    max 1 (mantissa * 30 * 2 ^ max exponent 1 / 2 ^ (150 + 32))

/-- The difficulty-1 target. -/
def pdiff1 : Bytes 32 := ((Bytes.zeros 32).set 4 0xff).set 5 0xff

/-- Long division of a big-endian number. The 128-bit arithmetic wraps, as in a release
build, and the quotient digit is cut to a byte. -/
def longDivision (difficulty : Nat) : Nat → List UInt8 → List UInt8
  | _, [] => []
  | carry, b :: bs =>
    let val := (carry * 256 + b.toNat) % 2 ^ 128
    UInt8.ofNat (val / difficulty) :: longDivision difficulty (val % difficulty) bs

@[simp] theorem longDivision_length (difficulty carry : Nat) (bs : List UInt8) :
    (longDivision difficulty carry bs).length = bs.length := by
  induction bs generalizing carry with
  | nil => rfl
  | cons b bs ih => simp only [longDivision, List.length_cons, ih]

def hashrateToTargetBe (hashrateHps : UInt32) : Bytes 32 :=
  ⟨longDivision (hashrateDifficulty hashrateHps) 0 pdiff1.data, by simp⟩

def targetBeToSv2 (targetBe : Bytes 32) : Bytes 32 := targetBe.reverse

theorem ofLE_targetBeToSv2 (targetBe : Bytes 32) :
    Bytes.ofLE (targetBeToSv2 targetBe).data = Bytes.ofBE targetBe.data := rfl

/-! ### Extranonces -/

/-- A second half that is not four bytes long is cut or padded with zeros. -/
def buildFullExtranonce (extranoncePrefix : Bytes 32) (ext2 : List UInt8) :
    Bytes sv2ExtranonceTotal :=
  let kept := ext2.take sv2Extranonce2Size
  ⟨extranoncePrefix.data ++ (kept ++ List.replicate (sv2Extranonce2Size - kept.length) 0), by
    have short : kept.length ≤ sv2Extranonce2Size := List.length_take_le _ _
    simp only [List.length_append, List.length_replicate, Bytes.size, sv2ExtranonceTotal,
      sv2ExtranoncePrefixSize]
    omega⟩

theorem buildFullExtranonce_four (extranoncePrefix : Bytes 32) (ext2 : Bytes 4) :
    (buildFullExtranonce extranoncePrefix ext2.data).data = extranoncePrefix.data ++ ext2.data := by
  have whole : ext2.data.take sv2Extranonce2Size = ext2.data :=
    List.take_of_length_le (by rw [ext2.size]; rfl)
  have full : sv2Extranonce2Size - ext2.data.length = 0 := by rw [ext2.size]; rfl
  simp only [buildFullExtranonce, whole, full, List.replicate_zero, List.append_nil]

theorem extranoncePrefix_eq {extranoncePrefix extranoncePrefix' : Bytes 32}
    {ext2 ext2' : List UInt8} (same : buildFullExtranonce extranoncePrefix ext2 =
      buildFullExtranonce extranoncePrefix' ext2') : extranoncePrefix = extranoncePrefix' := by
  have bytes := congrArg Bytes.data same
  exact Bytes.ext (List.append_inj bytes (by simp)).1

end MiningPool
