import Mathlib.Data.List.Basic

/-!
# The first window

The search for a pattern by comparing every window of its length. A pattern that was
put behind a broken text, one without long runs of the pattern's letters, is found
where it was put, whatever comes after it.
-/

namespace Windows

variable {α : Type}

/-- The windows of `n` letters, from left to right. -/
def windows (n : Nat) : List α → List (List α)
  | [] => []
  | a :: as => if n ≤ as.length + 1 then (a :: as).take n :: windows n as else []

/-- Where the first window is that equals the pattern. -/
def position [DecidableEq α] (pattern text : List α) : Option Nat :=
  (windows pattern.length text).findIdx? (· = pattern)

/-! ### Broken texts -/

/-- The text is made of runs shorter than `n`, each closed by a letter that satisfies
`Foreign`. -/
inductive Broken (Foreign : α → Prop) (n : Nat) : List α → Prop
  | nil : Broken Foreign n []
  | run {letters : List α} {a : α} {text : List α} (short : letters.length < n)
      (foreign : Foreign a) (rest : Broken Foreign n text) :
      Broken Foreign n (letters ++ a :: text)

namespace Broken

variable {Foreign : α → Prop} {n : Nat} {text text' : List α}

theorem append (first : Broken Foreign n text) (second : Broken Foreign n text') :
    Broken Foreign n (text ++ text') := by
  induction first with
  | nil => exact second
  | run short foreign _ ih =>
    rw [List.append_assoc, List.cons_append]
    exact .run short foreign ih

theorem of_foreign (positive : 0 < n) (all : ∀ a ∈ text, Foreign a) : Broken Foreign n text := by
  induction text with
  | nil => exact .nil
  | cons a text ih =>
    have head : Foreign a := all a List.mem_cons_self
    have rest : Broken Foreign n text := ih fun b member => all b (List.mem_cons_of_mem a member)
    rw [← List.nil_append (a :: text)]
    exact .run positive head rest

theorem tail {a : α} (broken : Broken Foreign n (a :: text)) : Broken Foreign n text := by
  generalize whole : a :: text = all at broken
  cases broken with
  | nil => cases whole
  | @run letters b rest short foreign broken =>
    cases letters with
    | nil =>
      cases whole
      exact broken
    | cons b letters =>
      cases whole
      exact .run (Nat.lt_of_succ_lt short) foreign broken

/-- A window that begins in a broken text has a foreign letter in it, whatever comes after
the text. -/
theorem foreign_in_window {a : α} (broken : Broken Foreign n (a :: text)) (rest : List α) :
    ∃ b ∈ (a :: text ++ rest).take n, Foreign b := by
  generalize whole : a :: text = all at broken
  cases broken with
  | nil => cases whole
  | @run letters b tail short foreign broken =>
    refine ⟨b, ?_, foreign⟩
    rw [List.append_assoc, List.take_append, List.mem_append]
    right
    obtain ⟨k, more⟩ := Nat.exists_eq_add_of_lt short
    have left : n - letters.length = k + 1 := by omega
    rw [left, List.cons_append, List.take_succ_cons]
    exact List.mem_cons_self

end Broken

/-! ### The search -/

private theorem position_cons [DecidableEq α] {pattern : List α} {a : α} {text : List α}
    (fits : pattern.length ≤ text.length + 1) (other : (a :: text).take pattern.length ≠ pattern) :
    position pattern (a :: text) = (position pattern text).map (· + 1) := by
  rw [position, windows, if_pos fits, List.findIdx?_cons, if_neg (by simpa using other), position]

/-- The pattern is found where it was put behind a broken text. -/
theorem position_first [DecidableEq α] {pattern before : List α} (some_ : pattern ≠ [])
    (broken : Broken (· ∉ pattern) pattern.length before) (after : List α) :
    position pattern (before ++ pattern ++ after) = some before.length := by
  induction before with
  | nil =>
    obtain ⟨a, as, rfl⟩ := List.exists_cons_of_ne_nil some_
    have window : (a :: (as ++ after)).take (as.length + 1) = a :: as := by
      rw [List.take_succ_cons, List.take_left]
    have fits : as.length + 1 ≤ (as ++ after).length + 1 := by
      rw [List.length_append]
      omega
    simp only [position, List.nil_append, List.cons_append, windows, List.length_cons, fits,
      if_true, window, List.findIdx?_cons, decide_true, List.length_nil]
  | cons a before ih =>
    have other : (a :: (before ++ pattern ++ after)).take pattern.length ≠ pattern := by
      intro same
      obtain ⟨b, member, foreign⟩ := broken.foreign_in_window (pattern ++ after)
      rw [List.cons_append, ← List.append_assoc, same] at member
      exact foreign member
    have fits : pattern.length ≤ (before ++ pattern ++ after).length + 1 := by
      simp only [List.length_append]
      omega
    rw [List.cons_append, List.cons_append, position_cons fits other, ih broken.tail]
    rfl

end Windows
