import Mathlib.Data.Nat.Log

/-!
# Merkle trees

Trees over any number of leaves, in which each level pairs neighbours and pairs the last
node of an odd level with itself. The leftmost leaf reaches the root through the right
siblings of its path, and these can be had without the leaf: what is right of the path
on one level says what is right of it on the next.
-/

namespace MerkleTree

variable {α : Type} (combine : α → α → α)

/-! ### Levels -/

/-- The level above some nodes. -/
def parents : List α → List α
  | [] => []
  | [a] => [combine a a]
  | a :: b :: nodes => combine a b :: parents nodes

@[simp] theorem parents_nil : parents combine [] = [] := rfl

@[simp] theorem parents_singleton (a : α) : parents combine [a] = [combine a a] := rfl

@[simp] theorem parents_cons_cons (a b : α) (nodes : List α) :
    parents combine (a :: b :: nodes) = combine a b :: parents combine nodes := rfl

@[simp] theorem length_parents (nodes : List α) :
    (parents combine nodes).length = (nodes.length + 1) / 2 := by
  induction nodes using parents.induct with
  | case1 => simp
  | case2 => simp
  | case3 a b nodes ih =>
    simp only [parents_cons_cons, List.length_cons, ih]
    omega

/-- The levels of the tree, from the leaves to the root. -/
def levels : List α → List (List α)
  | [] => []
  | [a] => [[a]]
  | a :: b :: nodes => (a :: b :: nodes) :: levels (combine a b :: parents combine nodes)
termination_by nodes => nodes.length
decreasing_by
  simp only [List.length_cons, length_parents]
  omega

def root? (nodes : List α) : Option α := (levels combine nodes).getLast?.bind List.head?

/-- How many levels there are above the leaves. -/
def height (nodes : List α) : Nat := (levels combine nodes).length - 1

private theorem levels_ne_nil (a : α) (nodes : List α) : levels combine (a :: nodes) ≠ [] := by
  cases nodes <;> simp [levels]

@[simp] theorem root?_singleton (a : α) : root? combine [a] = some a := by
  simp [root?, levels]

theorem root?_cons_cons (a b : α) (nodes : List α) :
    root? combine (a :: b :: nodes) = root? combine (combine a b :: parents combine nodes) := by
  rw [root?, levels, List.getLast?_cons_of_ne_nil (levels_ne_nil combine _ _), root?]

@[simp] theorem height_singleton (a : α) : height combine [a] = 0 := by
  simp [height, levels]

theorem height_cons_cons (a b : α) (nodes : List α) :
    height combine (a :: b :: nodes) =
      height combine (combine a b :: parents combine nodes) + 1 := by
  have some_ :=
    List.length_pos_iff.mpr (levels_ne_nil combine (combine a b) (parents combine nodes))
  rw [height, levels, List.length_cons, height]
  omega

/-! ### The leftmost path -/

/-- The siblings of the leftmost path, given what is right of it among the leaves. -/
def leftBranch : List α → List α
  | [] => []
  | b :: nodes => b :: leftBranch (parents combine nodes)
termination_by nodes => nodes.length
decreasing_by
  simp only [List.length_cons, length_parents]
  omega

@[simp] theorem leftBranch_nil : leftBranch combine [] = [] := by
  rw [leftBranch]

theorem leftBranch_cons (b : α) (nodes : List α) :
    leftBranch combine (b :: nodes) = b :: leftBranch combine (parents combine nodes) := by
  rw [leftBranch]

/-- The leftmost leaf reaches the root through its siblings. -/
theorem root?_eq_foldl (a : α) (nodes : List α) :
    root? combine (a :: nodes) = some ((leftBranch combine nodes).foldl combine a) := by
  induction nodes using leftBranch.induct combine generalizing a with
  | case1 => simp
  | case2 b nodes ih => rw [root?_cons_cons, ih, leftBranch_cons, List.foldl_cons]

/-- There is one sibling for each level above the leaves. -/
theorem length_leftBranch (a : α) (nodes : List α) :
    (leftBranch combine nodes).length = height combine (a :: nodes) := by
  induction nodes using leftBranch.induct combine generalizing a with
  | case1 => simp
  | case2 b nodes ih => rw [height_cons_cons, leftBranch_cons, List.length_cons, ih]

/-- A tree is as high as the binary logarithm of its leaves, rounded up. -/
theorem height_eq_clog (a : α) (nodes : List α) :
    height combine (a :: nodes) = Nat.clog 2 (nodes.length + 1) := by
  induction nodes using leftBranch.induct combine generalizing a with
  | case1 => simp
  | case2 b nodes ih =>
    rw [height_cons_cons, ih, length_parents, List.length_cons,
      Nat.clog_of_two_le (by decide : 1 < 2) (by omega : 2 ≤ nodes.length + 1 + 1)]
    congr 2
    omega

end MerkleTree
