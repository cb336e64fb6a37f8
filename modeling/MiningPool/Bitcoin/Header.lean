import MiningPool.Bitcoin.Transaction

/-!
# Block headers

The 80-byte header, the hash chain from a coinbase to its merkle root, and compact
targets. The double SHA-256 is a parameter throughout.
-/

namespace Bitcoin

/-- The version is the 32-bit pattern of the signed field. -/
structure Header where
  version : UInt32
  prevBlockhash : Bytes 32
  merkleRoot : Bytes 32
  time : UInt32
  bits : UInt32
  nonce : UInt32
deriving DecidableEq

namespace Header

def serialize (h : Header) : List UInt8 :=
  Bytes.toLE 4 h.version.toNat ++ h.prevBlockhash.data ++ h.merkleRoot.data ++
    Bytes.toLE 4 h.time.toNat ++ Bytes.toLE 4 h.bits.toNat ++ Bytes.toLE 4 h.nonce.toNat

/-- The hash in the byte order in which it is computed. -/
def blockHash (sha256d : List UInt8 → Bytes 32) (h : Header) : Bytes 32 := sha256d h.serialize

end Header

def computeTxid (sha256d : List UInt8 → Bytes 32) (tx : Transaction) : Bytes 32 :=
  sha256d tx.serializeBase

/-- One level up the merkle tree: the hash of a node beside its right sibling. -/
def combine (sha256d : List UInt8 → Bytes 32) (a b : Bytes 32) : Bytes 32 :=
  sha256d (a.data ++ b.data)

/-- The root that a leaf reaches through its branch, the leaf leftmost at every level. -/
def foldBranch (sha256d : List UInt8 → Bytes 32) (leaf : Bytes 32) (branch : List (Bytes 32)) :
    Bytes 32 :=
  branch.foldl (combine sha256d) leaf

/-- The strings that are hashed on the way from the bytes of a leaf to the root. -/
def branchPreimages (sha256d : List UInt8 → Bytes 32) : List UInt8 → List (Bytes 32) →
    List (List UInt8)
  | bytes, [] => [bytes]
  | bytes, sibling :: branch =>
    bytes :: branchPreimages sha256d ((sha256d bytes).data ++ sibling.data) branch

/-- Two different strings, one from each list, with the same hash. -/
def Collides (sha256d : List UInt8 → Bytes 32) (strings strings' : List (List UInt8)) : Prop :=
  ∃ a ∈ strings, ∃ b ∈ strings', a ≠ b ∧ sha256d a = sha256d b

/-- The last string hashed on the way to the root. -/
private def lastPreimage (sha256d : List UInt8 → Bytes 32) (bytes : List UInt8) :
    List (Bytes 32) → List UInt8
  | [] => bytes
  | sibling :: branch => lastPreimage sha256d ((sha256d bytes).data ++ sibling.data) branch

private theorem foldBranch_eq (sha256d : List UInt8 → Bytes 32) (bytes : List UInt8)
    (branch : List (Bytes 32)) :
    foldBranch sha256d (sha256d bytes) branch = sha256d (lastPreimage sha256d bytes branch) := by
  induction branch generalizing bytes with
  | nil => rfl
  | cons sibling branch ih => exact ih _

private theorem lastPreimage_concat (sha256d : List UInt8 → Bytes 32) (bytes : List UInt8)
    (branch : List (Bytes 32)) (sibling : Bytes 32) :
    lastPreimage sha256d bytes (branch ++ [sibling]) =
      (foldBranch sha256d (sha256d bytes) branch).data ++ sibling.data := by
  induction branch generalizing bytes with
  | nil => rfl
  | cons first branch ih => exact ih _

private theorem lastPreimage_mem (sha256d : List UInt8 → Bytes 32) (bytes : List UInt8)
    (branch : List (Bytes 32)) :
    lastPreimage sha256d bytes branch ∈ branchPreimages sha256d bytes branch := by
  induction branch generalizing bytes with
  | nil => exact List.mem_singleton_self _
  | cons sibling branch ih => exact List.mem_cons_of_mem _ (ih _)

private theorem branchPreimages_concat_subset (sha256d : List UInt8 → Bytes 32)
    (bytes : List UInt8) (branch : List (Bytes 32)) (sibling : Bytes 32) :
    branchPreimages sha256d bytes branch ⊆
      branchPreimages sha256d bytes (branch ++ [sibling]) := by
  induction branch generalizing bytes with
  | nil => exact List.cons_subset_cons _ (List.nil_subset _)
  | cons first branch ih => exact List.cons_subset_cons _ (ih _)

/-- Two leaves, neither of them as long as an inner node, that reach the same root are the
same, unless two strings on the way collide. -/
theorem leaf_eq_of_foldBranch_eq {sha256d : List UInt8 → Bytes 32} {bytes bytes' : List UInt8}
    (long : bytes.length ≠ 64) (long' : bytes'.length ≠ 64) {branch branch' : List (Bytes 32)}
    (same : foldBranch sha256d (sha256d bytes) branch =
      foldBranch sha256d (sha256d bytes') branch') :
    Collides sha256d (branchPreimages sha256d bytes branch)
      (branchPreimages sha256d bytes' branch') ∨ bytes = bytes' := by
  induction branch using List.reverseRecOn generalizing branch' with
  | nil =>
    rw [foldBranch_eq _ bytes'] at same
    by_cases equal : bytes = lastPreimage sha256d bytes' branch'
    · cases branch' using List.reverseRecOn with
      | nil => exact .inr equal
      | append_singleton branch' sibling =>
        rw [lastPreimage_concat] at equal
        exact absurd (by rw [equal]; simp) long
    · exact .inl ⟨bytes, List.mem_singleton_self _, _, lastPreimage_mem _ _ _, equal, same⟩
  | append_singleton branch sibling ih =>
    by_cases equal : lastPreimage sha256d bytes (branch ++ [sibling]) =
        lastPreimage sha256d bytes' branch'
    · rw [lastPreimage_concat] at equal
      cases branch' using List.reverseRecOn with
      | nil =>
        refine absurd ?_ long'
        change _ = bytes' at equal
        rw [← equal]
        simp
      | append_singleton branch' sibling' =>
        rw [lastPreimage_concat] at equal
        obtain ⟨nodes, _⟩ := List.append_inj equal (by simp)
        rcases ih (Bytes.ext nodes) with ⟨a, memA, b, memB, differ, hash⟩ | same
        · exact .inl ⟨a, branchPreimages_concat_subset _ _ _ _ memA, b,
            branchPreimages_concat_subset _ _ _ _ memB, differ, hash⟩
        · exact .inr same
    · rw [foldBranch_eq, foldBranch_eq] at same
      exact .inl ⟨_, lastPreimage_mem _ _ _, _, lastPreimage_mem _ _ _, equal, same⟩

/-- `Target::from` a compact target, as little-endian bytes. A negative mantissa is
zero, and bits shifted past the width are dropped. -/
def targetOfCompact (bits : UInt32) : Bytes 32 :=
  let expt := bits.toNat / 2 ^ 24
  let mant := bits.toNat % 2 ^ 24
  let (mant, shift) := if expt ≤ 3 then (mant / 256 ^ (3 - expt), 0) else (mant, 8 * (expt - 3))
  if mant > 0x7fffff then Bytes.zeros 32
  else ⟨Bytes.toLE 32 (mant * 2 ^ (shift % 256)), Bytes.toLE_length 32 _⟩

/-- The sum of amounts, unless it passes 64 bits on the way. -/
def checkedSumFrom : UInt64 → List UInt64 → Option UInt64
  | sum, [] => some sum
  | sum, v :: values =>
    if sum.toNat + v.toNat < 2 ^ 64 then checkedSumFrom (sum + v) values else none

def checkedSum (values : List UInt64) : Option UInt64 := checkedSumFrom 0 values

private theorem checkedSumFrom_eq_some {start sum : UInt64} {values : List UInt64}
    (h : checkedSumFrom start values = some sum) :
    sum.toNat = start.toNat + (values.map UInt64.toNat).sum := by
  induction values generalizing start with
  | nil =>
    cases h
    simp
  | cons v values ih =>
    unfold checkedSumFrom at h
    split at h
    next fits =>
      rw [ih h, UInt64.toNat_add, Nat.mod_eq_of_lt fits]
      simp only [List.map_cons, List.sum_cons, Nat.add_assoc]
    · cases h

theorem checkedSum_eq_some {values : List UInt64} {sum : UInt64}
    (h : checkedSum values = some sum) : sum.toNat = (values.map UInt64.toNat).sum := by
  simpa using checkedSumFrom_eq_some h

end Bitcoin
