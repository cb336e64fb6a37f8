import Mathlib.Data.List.Induction

/-!
# Histories

Properties of what happened so far, told of a list whose last entry is the latest:
that something occurred and was not revoked since, and that it was always revoked before
something else occurred. Both see only the entries that their predicates speak of. Last, that
every entry was one that may follow those before it.
-/

namespace History

variable {α : Type} {P S Q : α → Prop} {l m : List α}

/-- An entry with `P` occurred, and none with `S` after it. -/
def Since (P S : α → Prop) (l : List α) : Prop :=
  ∃ before x after, l = before ++ x :: after ∧ P x ∧ ∀ y ∈ after, ¬S y

/-- Between an entry with `P` and a later one with `Q` there always is one with `S`. -/
def Separated (P S Q : α → Prop) (l : List α) : Prop :=
  ∀ before y after, l = before ++ y :: after → Q y → ¬Since P S before

/-! ### One more entry -/

@[simp] theorem not_since_nil : ¬Since P S [] := by
  rintro ⟨before, x, after, eq, _⟩
  simp at eq

theorem since_concat (l : List α) (z : α) :
    Since P S (l ++ [z]) ↔ P z ∨ (Since P S l ∧ ¬S z) := by
  constructor
  · rintro ⟨before, x, after, eq, now, kept⟩
    cases after using List.reverseRecOn with
    | nil =>
      obtain ⟨_, last⟩ := List.append_inj' eq rfl
      obtain rfl : z = x := by simpa using last
      exact .inl now
    | append_singleton after y =>
      rw [← List.cons_append, ← List.append_assoc] at eq
      obtain ⟨rfl, last⟩ := List.append_inj' eq rfl
      obtain rfl : z = y := by simpa using last
      refine .inr ⟨⟨before, x, after, rfl, now, ?_⟩, kept z (by simp)⟩
      intro w member
      exact kept w (List.mem_append_left _ member)
  · rintro (now | ⟨⟨before, x, after, rfl, now, kept⟩, later⟩)
    · exact ⟨l, z, [], rfl, now, by simp⟩
    · refine ⟨before, x, after ++ [z], by simp, now, ?_⟩
      intro y member
      rcases List.mem_append.mp member with member | member
      · exact kept y member
      · obtain rfl := List.mem_singleton.mp member
        exact later

@[simp] theorem separated_nil : Separated P S Q [] := by
  intro before y after eq
  simp at eq

theorem separated_concat (l : List α) (z : α) :
    Separated P S Q (l ++ [z]) ↔ Separated P S Q l ∧ (Q z → ¬Since P S l) := by
  constructor
  · intro separated
    refine ⟨?_, separated l z [] rfl⟩
    rintro before y after rfl
    exact separated before y (after ++ [z]) (by simp)
  · rintro ⟨separated, last⟩ before y after eq
    cases after using List.reverseRecOn with
    | nil =>
      obtain ⟨rfl, same⟩ := List.append_inj' eq rfl
      obtain rfl : z = y := by simpa using same
      exact last
    | append_singleton after w =>
      rw [← List.cons_append, ← List.append_assoc] at eq
      exact separated before y after (List.append_inj' eq rfl).1

/-! ### More entries -/

theorem Since.mem (since : Since P S l) : ∃ x ∈ l, P x := by
  obtain ⟨before, x, after, rfl, now, _⟩ := since
  exact ⟨x, List.mem_append_right _ List.mem_cons_self, now⟩

/-- What occurred stays so until it is revoked. -/
theorem Since.append (since : Since P S l) (kept : ∀ y ∈ m, ¬S y) : Since P S (l ++ m) := by
  obtain ⟨before, x, after, rfl, now, kept'⟩ := since
  refine ⟨before, x, after ++ m, by simp, now, ?_⟩
  intro y member
  rcases List.mem_append.mp member with member | member
  · exact kept' y member
  · exact kept y member

theorem since_of_mem {x : α} (member : x ∈ m) (now : P x) (kept : ∀ y ∈ m, ¬S y) (l : List α) :
    Since P S (l ++ m) := by
  obtain ⟨before, after, rfl⟩ := List.append_of_mem member
  refine ⟨l ++ before, x, after, by simp, now, ?_⟩
  intro y later
  exact kept y (List.mem_append_right _ (List.mem_cons_of_mem _ later))

theorem Since.of_append (since : Since P S (l ++ m)) (none : ∀ y ∈ m, ¬P y) : Since P S l := by
  induction m using List.reverseRecOn with
  | nil => simpa using since
  | append_singleton m z ih =>
    rw [← List.append_assoc, since_concat] at since
    rcases since with now | ⟨since, _⟩
    · exact absurd now (none z (by simp))
    · exact ih since fun y member => none y (List.mem_append_left _ member)

theorem Separated.of_append (separated : Separated P S Q (l ++ m)) : Separated P S Q l := by
  rintro before y after rfl
  exact separated before y (after ++ m) (by simp)

theorem Separated.append (separated : Separated P S Q l) (none : ∀ y ∈ m, ¬Q y) :
    Separated P S Q (l ++ m) := by
  induction m using List.reverseRecOn with
  | nil => simpa using separated
  | append_singleton m z ih =>
    rw [← List.append_assoc, separated_concat]
    refine ⟨ih fun y member => none y (List.mem_append_left _ member), fun now => ?_⟩
    exact absurd now (none z (by simp))

/-! ### Entries that matter -/

section Filter

variable {r : α → Bool}

/-- `Since` sees only the entries that its predicates speak of. -/
theorem since_filter (hP : ∀ x, P x → r x = true) (hS : ∀ x, S x → r x = true) (l : List α) :
    Since P S (l.filter r) ↔ Since P S l := by
  induction l using List.reverseRecOn with
  | nil => simp
  | append_singleton l z ih =>
    rw [List.filter_append, since_concat]
    by_cases seen : r z = true
    · rw [List.filter_cons_of_pos seen, List.filter_nil, since_concat, ih]
    · have noP : ¬P z := fun now => seen (hP z now)
      have noS : ¬S z := fun now => seen (hS z now)
      simp [List.filter_cons_of_neg seen, ih, noP, noS]

theorem separated_filter (hP : ∀ x, P x → r x = true) (hS : ∀ x, S x → r x = true)
    (hQ : ∀ x, Q x → r x = true) (l : List α) :
    Separated P S Q (l.filter r) ↔ Separated P S Q l := by
  induction l using List.reverseRecOn with
  | nil => simp
  | append_singleton l z ih =>
    rw [List.filter_append, separated_concat]
    by_cases seen : r z = true
    · rw [List.filter_cons_of_pos seen, List.filter_nil, separated_concat, ih, since_filter hP hS]
    · have noQ : ¬Q z := fun now => seen (hQ z now)
      simp [List.filter_cons_of_neg seen, ih, noQ]

theorem since_append (hP : ∀ x, P x → r x = true) (hS : ∀ x, S x → r x = true) :
    Since P S (l ++ m) ↔ Since P S (l ++ m.filter r) := by
  rw [← since_filter hP hS (l ++ m), ← since_filter hP hS (l ++ m.filter r)]
  simp

theorem separated_append (hP : ∀ x, P x → r x = true) (hS : ∀ x, S x → r x = true)
    (hQ : ∀ x, Q x → r x = true) :
    Separated P S Q (l ++ m) ↔ Separated P S Q (l ++ m.filter r) := by
  rw [← separated_filter hP hS hQ (l ++ m), ← separated_filter hP hS hQ (l ++ m.filter r)]
  simp

end Filter

/-! ### Order -/

section Order

variable {follows : List α → α → Prop}

/-- Every entry may follow those before it. -/
def Ordered (follows : List α → α → Prop) (l : List α) : Prop :=
  ∀ before x after, l = before ++ x :: after → follows before x

@[simp] theorem ordered_nil : Ordered follows [] := by
  intro before x after eq
  simp at eq

theorem ordered_concat (l : List α) (z : α) :
    Ordered follows (l ++ [z]) ↔ Ordered follows l ∧ follows l z := by
  constructor
  · intro ordered
    refine ⟨?_, ordered l z [] rfl⟩
    rintro before x after rfl
    exact ordered before x (after ++ [z]) (by simp)
  · rintro ⟨ordered, last⟩ before x after eq
    cases after using List.reverseRecOn with
    | nil =>
      obtain ⟨rfl, same⟩ := List.append_inj' eq rfl
      obtain rfl : z = x := by simpa using same
      exact last
    | append_singleton after w =>
      rw [← List.cons_append, ← List.append_assoc] at eq
      exact ordered before x after (List.append_inj' eq rfl).1

@[simp] theorem ordered_singleton (x : α) : Ordered follows [x] ↔ follows [] x := by
  rw [← List.nil_append [x], ordered_concat]
  simp

@[simp] theorem ordered_pair (x y : α) :
    Ordered follows [x, y] ↔ follows [] x ∧ follows [x] y := by
  rw [← List.singleton_append, ordered_concat, ordered_singleton]

theorem Ordered.of_prefix (ordered : Ordered follows m) (part : l <+: m) : Ordered follows l := by
  obtain ⟨rest, rfl⟩ := part
  rintro before x after rfl
  exact ordered before x (after ++ rest) (by simp)

end Order

end History
