import Mathlib.Algebra.BigOperators.Group.List.Basic
import Mathlib.Data.List.Nodup

/-!
# Keyed tables

A finite map kept as rows in insertion order with no key twice: a hash map whose
iteration order is left to the caller, or an SQL table with a primary key.
-/

structure KeyedTable (κ α : Type) where
  rows : List (κ × α)
  unique : (rows.map Prod.fst).Nodup
deriving DecidableEq

namespace KeyedTable

variable {κ α : Type}

def empty : KeyedTable κ α := ⟨[], List.nodup_nil⟩

def keys (t : KeyedTable κ α) : List κ := t.rows.map Prod.fst

@[simp] theorem keys_empty : (empty : KeyedTable κ α).keys = [] := rfl

/-- Keep the rows that satisfy `p`. -/
def filter (t : KeyedTable κ α) (p : κ × α → Bool) : KeyedTable κ α where
  rows := t.rows.filter p
  unique := t.unique.sublist (List.filter_sublist.map Prod.fst)

variable [DecidableEq κ]

def get? (t : KeyedTable κ α) (k : κ) : Option α := t.rows.lookup k

/-- Apply `f` to the value at `k`, if there is one. -/
def modify (t : KeyedTable κ α) (k : κ) (f : α → α) : KeyedTable κ α where
  rows := t.rows.map fun r => (r.1, if r.1 = k then f r.2 else r.2)
  unique := by simpa [Function.comp_def] using t.unique

/-- Apply `f` to the value at `k`, or add the row `(k, v)` when the key is new. -/
def upsert (t : KeyedTable κ α) (k : κ) (v : α) (f : α → α) : KeyedTable κ α :=
  if fresh : k ∈ t.keys then t.modify k f
  else
    { rows := t.rows ++ [(k, v)]
      unique := by
        rw [List.map_append, List.nodup_append]
        refine ⟨t.unique, by simp, ?_⟩
        intro a ha b hb same
        simp only [List.map_cons, List.map_nil, List.mem_singleton] at hb
        exact fresh (hb ▸ same ▸ ha) }

def insert (t : KeyedTable κ α) (k : κ) (v : α) : KeyedTable κ α := t.upsert k v fun _ => v

def insertOrIgnore (t : KeyedTable κ α) (k : κ) (v : α) : KeyedTable κ α := t.upsert k v id

/-! ### Lookup -/

private theorem lookup_row (rows : List (κ × α)) (r : κ × α) (k : κ) :
    (r :: rows).lookup k = if k = r.1 then some r.2 else rows.lookup k := by
  obtain ⟨k', v⟩ := r
  by_cases same : k = k'
  · simp [same]
  · simp [List.lookup_cons, beq_false_of_ne same, same]

private theorem lookup_isSome_iff (rows : List (κ × α)) (k : κ) :
    (rows.lookup k).isSome ↔ k ∈ rows.map Prod.fst := by
  induction rows with
  | nil => simp
  | cons r rows ih =>
    rw [lookup_row]
    by_cases same : k = r.1
    · simp [same]
    · simp only [same, if_false, ih, List.map_cons, List.mem_cons, false_or]

theorem get?_isSome_iff (t : KeyedTable κ α) (k : κ) : (t.get? k).isSome ↔ k ∈ t.keys :=
  lookup_isSome_iff t.rows k

theorem get?_eq_none_iff (t : KeyedTable κ α) (k : κ) : t.get? k = none ↔ k ∉ t.keys := by
  rw [← get?_isSome_iff, Option.not_isSome_iff_eq_none]

private theorem lookup_eq_some_iff (rows : List (κ × α)) (unique : (rows.map Prod.fst).Nodup)
    (k : κ) (v : α) : rows.lookup k = some v ↔ (k, v) ∈ rows := by
  induction rows with
  | nil => simp
  | cons r rows ih =>
    obtain ⟨k', v'⟩ := r
    simp only [List.map_cons, List.nodup_cons] at unique
    rw [lookup_row]
    by_cases same : k = k'
    · subst k'
      have absent : ∀ w, (k, w) ∉ rows := fun w hw => unique.1 (List.mem_map.mpr ⟨_, hw, rfl⟩)
      simp [absent, eq_comm]
    · simp [same, ih unique.2]

theorem get?_eq_some_iff (t : KeyedTable κ α) (k : κ) (v : α) :
    t.get? k = some v ↔ (k, v) ∈ t.rows :=
  lookup_eq_some_iff t.rows t.unique k v

theorem get?_filter (t : KeyedTable κ α) (p : κ × α → Bool) (k : κ) :
    (t.filter p).get? k = (t.get? k).filter fun v => p (k, v) := by
  ext v
  rw [get?_eq_some_iff, Option.filter_eq_some_iff, get?_eq_some_iff, filter, List.mem_filter]

@[simp] theorem get?_empty (k : κ) : (empty : KeyedTable κ α).get? k = none := rfl

theorem mem_keys_of_get? {t : KeyedTable κ α} {k : κ} {v : α} (h : t.get? k = some v) :
    k ∈ t.keys :=
  (t.get?_isSome_iff k).mp (by rw [h]; rfl)

private theorem lookup_map (rows : List (κ × α)) (k k' : κ) (f : α → α) :
    (rows.map fun r => (r.1, if r.1 = k then f r.2 else r.2)).lookup k' =
      (rows.lookup k').map fun v => if k' = k then f v else v := by
  induction rows with
  | nil => rfl
  | cons r rows ih =>
    rw [List.map_cons, lookup_row, lookup_row, ih]
    by_cases same : k' = r.1
    · subst k'
      simp
    · simp [same]

theorem get?_modify (t : KeyedTable κ α) (k k' : κ) (f : α → α) :
    (t.modify k f).get? k' = (t.get? k').map fun v => if k' = k then f v else v :=
  lookup_map t.rows k k' f

private theorem lookup_append (rows : List (κ × α)) (k k' : κ) (v : α)
    (fresh : k ∉ rows.map Prod.fst) :
    (rows ++ [(k, v)]).lookup k' = if k' = k then some v else rows.lookup k' := by
  induction rows with
  | nil =>
    rw [List.nil_append, lookup_row]
  | cons r rows ih =>
    simp only [List.map_cons, List.mem_cons, not_or] at fresh
    rw [List.cons_append, lookup_row, lookup_row, ih fresh.2]
    by_cases first : k' = r.1
    · subst k'
      simp [Ne.symm fresh.1]
    · simp [first]

/-- An upsert touches one key: its value is updated, or set when there was none. -/
theorem get?_upsert (t : KeyedTable κ α) (k k' : κ) (v : α) (f : α → α) :
    (t.upsert k v f).get? k' =
      if k' = k then some ((t.get? k).elim v f) else t.get? k' := by
  unfold upsert
  split
  next present =>
    rw [get?_modify]
    obtain ⟨w, hw⟩ := Option.isSome_iff_exists.mp ((t.get?_isSome_iff k).mpr present)
    by_cases same : k' = k
    · subst k'
      simp [hw]
    · simp [same]
  next fresh =>
    have none := (t.get?_eq_none_iff k).mpr fresh
    change (t.rows ++ [(k, v)]).lookup k' = _
    rw [lookup_append _ _ _ _ fresh, none]
    rfl

theorem mem_keys_upsert (t : KeyedTable κ α) (k k' : κ) (v : α) (f : α → α) :
    k' ∈ (t.upsert k v f).keys ↔ k' ∈ t.keys ∨ k' = k := by
  rw [← get?_isSome_iff, get?_upsert, ← get?_isSome_iff]
  by_cases same : k' = k <;> simp [same]

theorem get?_insert (t : KeyedTable κ α) (k k' : κ) (v : α) :
    (t.insert k v).get? k' = if k' = k then some v else t.get? k' := by
  rw [insert, get?_upsert]
  cases t.get? k <;> rfl

theorem get?_insertOrIgnore (t : KeyedTable κ α) (k k' : κ) (v : α) :
    (t.insertOrIgnore k v).get? k' =
      if k' = k then some ((t.get? k).getD v) else t.get? k' := by
  rw [insertOrIgnore, get?_upsert]
  cases t.get? k <;> rfl

/-! ### Totals -/

section Total

variable {M : Type} [AddCommMonoid M]

/-- The sum of a weight over the rows. -/
def total (t : KeyedTable κ α) (weight : κ → α → M) : M := (t.rows.map fun r => weight r.1 r.2).sum

omit [DecidableEq κ] in
/-- Deleting rows moves their weight from what is kept to what is removed. -/
theorem total_filter_add (t : KeyedTable κ α) (weight : κ → α → M) (p : κ × α → Bool) :
    (t.filter p).total weight + (t.filter fun r => !p r).total weight = t.total weight := by
  unfold total filter
  simp only
  induction t.rows with
  | nil => simp
  | cons r rows ih =>
    cases keep : p r <;> simp only [List.filter_cons, keep, Bool.not_true, Bool.not_false,
      Bool.false_eq_true, if_true, if_false, List.map_cons, List.sum_cons, ← ih]
    · rw [add_left_comm]
    · rw [add_assoc]

omit [DecidableEq κ] in
/-- The total of a selection weighs the other rows nothing. -/
theorem total_filter (t : KeyedTable κ α) (weight : κ → α → M) (p : κ × α → Bool) :
    (t.filter p).total weight = t.total fun k v => if p (k, v) then weight k v else 0 := by
  unfold total filter
  dsimp only
  induction t.rows with
  | nil => rfl
  | cons r rows ih =>
    cases keep : p r <;> simp [keep, ih]

private theorem sum_modify (rows : List (κ × α)) (unique : (rows.map Prod.fst).Nodup)
    (weight : κ → α → M) (k : κ) (f : α → α) (d : M)
    (adds : ∀ v, weight k (f v) = weight k v + d) (present : k ∈ rows.map Prod.fst) :
    ((rows.map fun r => (r.1, if r.1 = k then f r.2 else r.2)).map fun r => weight r.1 r.2).sum =
      (rows.map fun r => weight r.1 r.2).sum + d := by
  induction rows with
  | nil => simp at present
  | cons r rows ih =>
    obtain ⟨k₀, v₀⟩ := r
    simp only [List.map_cons, List.nodup_cons] at unique
    simp only [List.map_cons, List.sum_cons]
    by_cases same : k₀ = k
    · subst k₀
      -- no later row has this key, so the rest is unchanged
      have rest : rows.map (fun r => (r.1, if r.1 = k then f r.2 else r.2)) = rows := by
        conv_rhs => rw [← List.map_id rows]
        apply List.map_congr_left
        intro r hr
        have other : r.1 ≠ k := fun e => unique.1 (List.mem_map.mpr ⟨r, hr, e⟩)
        simp [other]
      rw [rest, if_pos rfl, adds, add_right_comm]
    · have later : k ∈ rows.map Prod.fst := by
        rcases List.mem_cons.mp present with first | later
        · exact absurd first.symm same
        · exact later
      rw [ih unique.2 later, if_neg same, add_assoc]

/-- An upsert whose update adds `d`, and whose new row weighs `d`, adds `d` to the total. -/
theorem total_upsert (t : KeyedTable κ α) (weight : κ → α → M) (k : κ) (v : α) (f : α → α) (d : M)
    (new : weight k v = d) (adds : ∀ v, weight k (f v) = weight k v + d) :
    (t.upsert k v f).total weight = t.total weight + d := by
  unfold upsert
  split
  next present => exact sum_modify t.rows t.unique weight k f d adds present
  next => simp [total, new]

end Total

end KeyedTable
