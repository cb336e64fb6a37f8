import MiningPool.Jobs
import MiningPool.Library.MerkleTree

/-!
# The merkle branch of a block template

`build_merkle_branch` of `jobs.rs`, which never sees the coinbase: it keeps what is right
of the coinbase path on each level, and pairs it off from the second node on. Folding a
share's coinbase into the branch gives the root of the tree over the whole block.
-/

namespace MiningPool

open Bitcoin

structure TemplateTransaction where
  txid : String

/-! ### Building the branch -/

def sha256dPair (X : Externals) (a b : Bytes 32) : Bytes 32 := X.sha256d (a.data ++ b.data)

/-- A txid in the byte order of the tree. Anything but the hex of 32 bytes is a panic. -/
def internalTxid (txid : String) : Option (Bytes 32) :=
  (Bytes.hexDecode txid.toList).bind fun b => Bytes.ofList? 32 b.reverse

/-- The loop that builds `next`, from index `i` on. -/
def mergeFrom (X : Externals) (level : List (Bytes 32)) (i : Nat) : List (Bytes 32) :=
  if inside : i < level.length then
    let a := level[i]
    let b := if more : i + 1 < level.length then level[i + 1] else a
    sha256dPair X a b :: mergeFrom X level (i + 2)
  else []
termination_by level.length - i

theorem mergeFrom_eq (X : Externals) (level : List (Bytes 32)) (i : Nat) :
    mergeFrom X level i = MerkleTree.parents (combine X.sha256d) (level.drop i) := by
  induction i using mergeFrom.induct level with
  | case1 i inside ih =>
    rw [mergeFrom, dif_pos inside, ih, List.drop_eq_getElem_cons inside]
    dsimp only
    -- a last node without a neighbour is paired with itself
    by_cases more : i + 1 < level.length
    · rw [dif_pos more, List.drop_eq_getElem_cons more]
      rfl
    · rw [dif_neg more, List.drop_eq_nil_of_le (show level.length ≤ i + 1 by omega),
        List.drop_eq_nil_of_le (show level.length ≤ i + 2 by omega)]
      rfl
  | case2 i outside =>
    rw [mergeFrom, dif_neg outside, List.drop_eq_nil_of_le (not_lt.mp outside)]
    rfl

/-- The loop over the levels. `level[0]` of an empty level is a panic. -/
def branchLoop (X : Externals) (level branch : List (Bytes 32)) : Option (List (Bytes 32)) :=
  match level with
  | [] => none
  | first :: rest =>
    let branch := branch ++ [first]
    if (first :: rest).length = 1 then some branch
    else branchLoop X (mergeFrom X (first :: rest) 1) branch
termination_by level.length
decreasing_by
  rw [mergeFrom_eq, MerkleTree.length_parents, List.drop_one, List.tail_cons, List.length_cons]
  omega

def buildMerkleBranch (X : Externals) (transactions : List TemplateTransaction) :
    Option (List (Bytes 32)) :=
  if transactions.isEmpty then some []
  else do
    let level ← transactions.mapM fun tx => internalTxid tx.txid
    branchLoop X level []

/-! ### The loops -/

/-- The levels that the loop goes through give the siblings of the leftmost path. -/
theorem branchLoop_eq (X : Externals) (level branch : List (Bytes 32)) (some_ : level ≠ []) :
    branchLoop X level branch =
      some (branch ++ MerkleTree.leftBranch (combine X.sha256d) level) := by
  induction level, branch using branchLoop.induct X with
  | case1 => exact absurd rfl some_
  | case2 branch first rest one =>
    obtain rfl := List.length_eq_zero_iff.mp (Nat.succ.inj one)
    simp [branchLoop, MerkleTree.leftBranch_cons]
  | case3 branch first rest last more ih =>
    have merged : mergeFrom X (first :: rest) 1 =
        MerkleTree.parents (combine X.sha256d) rest := mergeFrom_eq X (first :: rest) 1
    -- more than one node is left, so the next level is not empty
    have rest_ : MerkleTree.parents (combine X.sha256d) rest ≠ [] := by
      rw [ne_eq, ← List.length_eq_zero_iff, MerkleTree.length_parents]
      rw [List.length_cons] at more
      omega
    rw [branchLoop, if_neg more, ih (merged ▸ rest_), merged, MerkleTree.leftBranch_cons,
      List.append_assoc]
    rfl

/-! ### The branch of a block -/

/-- A txid as `getblocktemplate` returns it: 64 hex digits. -/
def ValidTxid (txid : String) : Prop :=
  txid.toList.length = 64 ∧ ∀ c ∈ txid.toList, (Bytes.hexValue c).isSome

/-- The text, in either case, displays the hash: its bytes reversed, in hex. -/
def Displays (txid : String) (hash : Bytes 32) : Prop :=
  txid.toList.map Char.toLower = Bytes.hexEncode hash.reverse.data

private theorem internalTxid_valid {txid : String} (valid : ValidTxid txid) :
    ∃ hash, internalTxid txid = some hash ∧ Displays txid hash := by
  obtain ⟨bs, decoded, size⟩ := Bytes.hexDecode_digits (n := 32) valid.1 valid.2
  have length : bs.reverse.length = 32 := by rw [List.length_reverse, size]
  refine ⟨⟨bs.reverse, length⟩, ?_, ?_⟩
  · rw [internalTxid, decoded, Option.bind_some, Bytes.ofList?, dif_pos length]
  · rw [Displays, Bytes.hexDecode_eq_some decoded, Bytes.reverse_data, List.reverse_reverse]

private theorem mapM_internalTxid {transactions : List TemplateTransaction}
    (valid : ∀ tx ∈ transactions, ValidTxid tx.txid) :
    ∃ leaves, transactions.mapM (fun tx => internalTxid tx.txid) = some leaves ∧
      List.Forall₂ (fun tx leaf => Displays tx.txid leaf) transactions leaves := by
  induction transactions with
  | nil => exact ⟨[], rfl, .nil⟩
  | cons tx transactions ih =>
    obtain ⟨leaf, first, shows⟩ := internalTxid_valid (valid tx List.mem_cons_self)
    obtain ⟨leaves, rest, each⟩ := ih fun t member => valid t (List.mem_cons_of_mem tx member)
    refine ⟨leaf :: leaves, ?_, .cons shows each⟩
    rw [List.mapM_cons, first, rest]
    rfl

/-- For every list of txids, `build_merkle_branch` returns a branch as long as the tree over the
block is high, and every coinbase hash folded into it gives the root of that tree. -/
theorem buildMerkleBranch_correct (X : Externals) (transactions : List TemplateTransaction)
    (valid : ∀ tx ∈ transactions, ValidTxid tx.txid) :
    ∃ leaves branch, List.Forall₂ (fun tx leaf => Displays tx.txid leaf) transactions leaves ∧
      buildMerkleBranch X transactions = some branch ∧
      ∀ coinbase : Bytes 32,
        MerkleTree.root? (combine X.sha256d) (coinbase :: leaves) =
          some (foldBranch X.sha256d coinbase branch) ∧
        branch.length = MerkleTree.height (combine X.sha256d) (coinbase :: leaves) ∧
        branch.length = Nat.clog 2 (transactions.length + 1) := by
  obtain ⟨leaves, decoded, shows⟩ := mapM_internalTxid valid
  have built : buildMerkleBranch X transactions =
      some (MerkleTree.leftBranch (combine X.sha256d) leaves) := by
    rw [buildMerkleBranch]
    -- without transactions the code returns before the loop
    cases shows with
    | nil => simp
    | cons =>
      rw [decoded]
      simp only [List.isEmpty_cons, Bool.false_eq_true, if_false, Option.bind_eq_bind,
        Option.bind_some]
      exact branchLoop_eq X _ [] (List.cons_ne_nil _ _)
  refine ⟨leaves, _, shows, built, fun coinbase => ⟨?_, ?_, ?_⟩⟩
  · exact MerkleTree.root?_eq_foldl (combine X.sha256d) coinbase leaves
  · exact MerkleTree.length_leftBranch (combine X.sha256d) coinbase leaves
  · rw [MerkleTree.length_leftBranch (combine X.sha256d) coinbase leaves,
      MerkleTree.height_eq_clog, shows.length_eq]

/-- A transaction whose txid starts with a byte and goes on with zeros. -/
def fakeTx (b : UInt8) : TemplateTransaction :=
  ⟨String.ofList (Bytes.hexEncode (b :: List.replicate 31 0))⟩

private theorem fakeTx_valid (b : UInt8) : ValidTxid (fakeTx b).txid := by
  rw [ValidTxid, fakeTx, String.toList_ofList]
  exact Bytes.hexEncode_digits (b :: List.replicate 31 0)

/-- The branch of a block of four, with an odd number of transactions beside the coinbase. -/
theorem buildMerkleBranch_correct_three :
    ∃ leaves branch, buildMerkleBranch regtestExternals [fakeTx 1, fakeTx 2, fakeTx 3] =
        some branch ∧ branch.length = 2 ∧
      MerkleTree.root? (combine regtestExternals.sha256d) (Bytes.zeros 32 :: leaves) =
        some (foldBranch regtestExternals.sha256d (Bytes.zeros 32) branch) := by
  have valid : ∀ tx ∈ [fakeTx 1, fakeTx 2, fakeTx 3], ValidTxid tx.txid := by
    simp [fakeTx_valid]
  obtain ⟨leaves, branch, _, built, folds⟩ := buildMerkleBranch_correct regtestExternals _ valid
  obtain ⟨root, _, length⟩ := folds (Bytes.zeros 32)
  exact ⟨leaves, branch, built, length, root⟩

end MiningPool
