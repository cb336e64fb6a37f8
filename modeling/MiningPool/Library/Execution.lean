import Mathlib.Logic.Function.Iterate

/-!
# Executions

Runs of a partial step function over a list of inputs: an input the state does not
allow ends the run with nothing. The rules below are the only inductions over runs
that a development needs: an invariant, and an invariant that also speaks of the
inputs so far, each under a condition that every step of the run meets; one that speaks
of what the steps put out, and a simulation by another system that runs on it; the step at
which something first holds; a goal that some run meets, by a measure; and a simulation by the
iterates of a function.
-/

namespace Execution

variable {σ ι : Type} (step : σ → ι → Option σ)

def run : σ → List ι → Option σ
  | s, [] => some s
  | s, i :: is => (step s i).bind fun s' => run s' is

@[simp] theorem run_nil (s : σ) : run step s [] = some s := rfl

theorem run_cons (s : σ) (i : ι) (is : List ι) :
    run step s (i :: is) = (step s i).bind fun s' => run step s' is := rfl

theorem run_append (s : σ) (is js : List ι) :
    run step s (is ++ js) = (run step s is).bind fun s' => run step s' js := by
  induction is generalizing s with
  | nil => rfl
  | cons i is ih =>
    simp only [List.cons_append, run_cons]
    cases step s i with
    | none => rfl
    | some s' => exact ih s'

variable {step} in
theorem run_snoc {s s₁ s₂ : σ} {is : List ι} {i : ι} (ran : run step s is = some s₁)
    (stepped : step s₁ i = some s₂) : run step s (is ++ [i]) = some s₂ := by
  rw [run_append, ran, Option.bind_some, run_cons, stepped]
  rfl

/-- Every step of the run from `s` is taken in a state and on an input that meet `ok`. -/
def Along (ok : σ → ι → Prop) : σ → List ι → Prop
  | _, [] => True
  | s, i :: is => ok s i ∧ ∀ s', step s i = some s' → Along ok s' is

instance Along.decide (ok : σ → ι → Prop) [∀ s i, Decidable (ok s i)] :
    ∀ s is, Decidable (Along step ok s is)
  | _, [] => isTrue trivial
  | s, i :: is =>
    match next : step s i with
    | none => decidable_of_iff (ok s i)
        ⟨fun h => ⟨h, fun s' stepped => by rw [next] at stepped; cases stepped⟩, And.left⟩
    | some s' =>
      have := Along.decide ok s' is
      decidable_of_iff (ok s i ∧ Along step ok s' is)
        ⟨fun h => ⟨h.1, fun _ stepped => Option.some.inj (next.symm.trans stepped) ▸ h.2⟩,
          fun h => ⟨h.1, h.2 s' next⟩⟩

variable {step}

/-- What holds at the start, and is kept by every step that meets `ok`, holds after
every run whose steps all meet it. The invariant may speak of the inputs so far. -/
theorem run_history_along {ok : σ → ι → Prop} (inv : List ι → σ → Prop)
    (keep : ∀ past s i s', inv past s → ok s i → step s i = some s' → inv (past ++ [i]) s')
    {s₀ s : σ} {is : List ι} (init : inv [] s₀) (met : Along step ok s₀ is)
    (ran : run step s₀ is = some s) : inv is s := by
  suffices general : ∀ past s₀, inv past s₀ → Along step ok s₀ is →
      run step s₀ is = some s → inv (past ++ is) s by
    simpa using general [] s₀ init met ran
  clear init met ran
  induction is with
  | nil =>
    intro past s₀ holds _ ran
    cases ran
    simpa using holds
  | cons i is ih =>
    intro past s₀ holds met ran
    rw [run_cons, Option.bind_eq_some_iff] at ran
    obtain ⟨s₁, first, ran⟩ := ran
    have kept := keep past s₀ i s₁ holds met.1 first
    simpa using ih (past ++ [i]) s₁ kept (met.2 s₁ first) ran

/-- The condition that a run meets is met at each of its steps. -/
theorem Along.at_step {ok : σ → ι → Prop} {s₀ s : σ} {past rest : List ι} {i : ι}
    (met : Along step ok s₀ (past ++ i :: rest)) (reached : run step s₀ past = some s) :
    ok s i := by
  induction past generalizing s₀ with
  | nil =>
    cases reached
    exact met.1
  | cons j past ih =>
    rw [run_cons, Option.bind_eq_some_iff] at reached
    obtain ⟨s₁, first, reached⟩ := reached
    exact ih (met.2 s₁ first) reached

theorem along_of_forall {ok : σ → ι → Prop} (all : ∀ s i, ok s i) (s : σ) (is : List ι) :
    Along step ok s is := by
  induction is generalizing s with
  | nil => trivial
  | cons i is ih => exact ⟨all s i, fun s' _ => ih s'⟩

theorem run_history (inv : List ι → σ → Prop)
    (keep : ∀ past s i s', inv past s → step s i = some s' → inv (past ++ [i]) s')
    {s₀ s : σ} {is : List ι} (init : inv [] s₀) (ran : run step s₀ is = some s) : inv is s := by
  have always : Along step (fun _ _ => True) s₀ is := along_of_forall (fun _ _ => trivial) s₀ is
  exact run_history_along inv (fun past s i s' holds _ stepped => keep past s i s' holds stepped)
    init always ran

theorem run_invariant_along {ok : σ → ι → Prop} (inv : σ → Prop)
    (keep : ∀ s i s', inv s → ok s i → step s i = some s' → inv s')
    {s₀ s : σ} {is : List ι} (init : inv s₀) (met : Along step ok s₀ is)
    (ran : run step s₀ is = some s) : inv s :=
  run_history_along (fun _ => inv) (fun _ => keep) init met ran

theorem run_invariant (inv : σ → Prop) (keep : ∀ s i s', inv s → step s i = some s' → inv s')
    {s₀ s : σ} {is : List ι} (init : inv s₀) (ran : run step s₀ is = some s) : inv s :=
  run_history (fun _ => inv) (fun _ => keep) init ran

/-! ### Evaluation -/

/-- The outcome of a step or a run on fixed inputs, by evaluating it once. -/
theorem exists_of_any {α : Type} {o : Option α} {P : α → Prop} [DecidablePred P]
    (checked : o.any (fun a => decide (P a)) = true) : ∃ a, o = some a ∧ P a := by
  obtain ⟨a, found, holds⟩ := (Option.any_eq_true _ _).mp checked
  exact ⟨a, found, of_decide_eq_true holds⟩

/-! ### Outputs -/

section Outputs

variable {ω : Type} (out : σ → ι → σ → List ω)

variable (step) in
/-- What the steps of a run put out, in order. -/
def outputs : σ → List ι → List ω
  | _, [] => []
  | s, i :: is =>
    match step s i with
    | none => []
    | some s' => out s i s' ++ outputs s' is

theorem outputs_append {s s₁ : σ} {is : List ι} (ran : run step s is = some s₁) (js : List ι) :
    outputs step out s (is ++ js) = outputs step out s is ++ outputs step out s₁ js := by
  induction is generalizing s with
  | nil =>
    cases ran
    rfl
  | cons i is ih =>
    rw [run_cons, Option.bind_eq_some_iff] at ran
    obtain ⟨s', first, ran⟩ := ran
    simp only [List.cons_append, outputs, first, List.append_assoc, ih ran]

theorem outputs_snoc {s s₁ s₂ : σ} {is : List ι} {i : ι} (ran : run step s is = some s₁)
    (stepped : step s₁ i = some s₂) :
    outputs step out s (is ++ [i]) = outputs step out s is ++ out s₁ i s₂ := by
  rw [outputs_append out ran]
  simp only [outputs, stepped, List.append_nil]

/-- What holds at the start, and is kept by every step that meets `ok` together with what
it puts out, holds of the outputs and the end of every run whose steps all meet it. -/
theorem run_outputs_along {ok : σ → ι → Prop} (inv : List ω → σ → Prop)
    (keep : ∀ past s i s', inv past s → ok s i → step s i = some s' →
      inv (past ++ out s i s') s')
    {s₀ s : σ} {is : List ι} (init : inv [] s₀) (met : Along step ok s₀ is)
    (ran : run step s₀ is = some s) : inv (outputs step out s₀ is) s := by
  refine (run_history_along (fun past s => run step s₀ past = some s ∧
    inv (outputs step out s₀ past) s) ?_ ⟨rfl, init⟩ met ran).2
  rintro past s i s' ⟨reached, holds⟩ meets stepped
  refine ⟨run_snoc reached stepped, ?_⟩
  rw [outputs_snoc out reached stepped]
  exact keep _ s i s' holds meets stepped

theorem run_outputs (inv : List ω → σ → Prop)
    (keep : ∀ past s i s', inv past s → step s i = some s' → inv (past ++ out s i s') s')
    {s₀ s : σ} {is : List ι} (init : inv [] s₀) (ran : run step s₀ is = some s) :
    inv (outputs step out s₀ is) s := by
  have always : Along step (fun _ _ => True) s₀ is := along_of_forall (fun _ _ => trivial) s₀ is
  exact run_outputs_along out inv (fun past s i s' holds _ => keep past s i s' holds) init always
    ran

end Outputs

/-! ### Translation -/

/-- Where every step is matched, in another system, by a run on what the step puts out, every
run is matched by the run on its outputs. -/
theorem run_translates {τ κ : Type} {step' : τ → κ → Option τ} (out : σ → ι → σ → List κ)
    {R : σ → τ → Prop}
    (keep : ∀ s i s' t, R s t → step s i = some s' → ∃ t', run step' t (out s i s') = some t' ∧
      R s' t')
    {s₀ s : σ} {t₀ : τ} {is : List ι} (init : R s₀ t₀) (ran : run step s₀ is = some s) :
    ∃ t, run step' t₀ (outputs step out s₀ is) = some t ∧ R s t := by
  refine run_outputs out (fun put s => ∃ t, run step' t₀ put = some t ∧ R s t) ?_ ⟨t₀, rfl, init⟩
    ran
  rintro put s i s' ⟨t, reached, related⟩ stepped
  obtain ⟨t', matched, related'⟩ := keep s i s' t related stepped
  refine ⟨t', ?_, related'⟩
  rw [run_append, reached, Option.bind_some, matched]

/-! ### First times -/

/-- What does not hold at the start but holds in the end comes to hold at some step. -/
theorem run_first {Q : σ → Prop} {s₀ s : σ} {is : List ι} (ran : run step s₀ is = some s)
    (before : ¬Q s₀) (after : Q s) :
    ∃ past i rest s₁ s₂, is = past ++ i :: rest ∧ run step s₀ past = some s₁ ∧
      step s₁ i = some s₂ ∧ ¬Q s₁ ∧ Q s₂ := by
  induction is generalizing s₀ with
  | nil =>
    cases ran
    exact absurd after before
  | cons i is ih =>
    rw [run_cons, Option.bind_eq_some_iff] at ran
    obtain ⟨s₁, first, ran⟩ := ran
    by_cases now : Q s₁
    · exact ⟨[], i, is, s₀, s₁, rfl, rfl, first, before, now⟩
    · obtain ⟨past, j, rest, s₂, s₃, eq, reached, stepped, notYet, then_⟩ := ih ran now
      exact ⟨i :: past, j, rest, s₂, s₃, by rw [eq, List.cons_append],
        by rw [run_cons, first, Option.bind_some, reached], stepped, notYet, then_⟩

/-! ### Progress -/

section Progress

variable {ok : ι → Prop} {s s₁ s₂ : σ}

variable (step) in
/-- A run on inputs that are `ok` leads from `s` to `s'`. -/
def Reaches (ok : ι → Prop) (s s' : σ) : Prop :=
  ∃ is, (∀ i ∈ is, ok i) ∧ run step s is = some s'

theorem Reaches.refl (s : σ) : Reaches step ok s s := ⟨[], nofun, rfl⟩

theorem Reaches.of_step {i : ι} (allowed : ok i) (stepped : step s i = some s₁) :
    Reaches step ok s s₁ := by
  refine ⟨[i], ?_, ?_⟩
  · intro j member
    rwa [List.mem_singleton.mp member]
  · rw [run_cons, stepped]
    rfl

theorem Reaches.trans (first : Reaches step ok s s₁) (second : Reaches step ok s₁ s₂) :
    Reaches step ok s s₂ := by
  obtain ⟨is, allowed, ran⟩ := first
  obtain ⟨js, allowed', ran'⟩ := second
  refine ⟨is ++ js, ?_, ?_⟩
  · intro i member
    rcases List.mem_append.mp member with member | member
    · exact allowed i member
    · exact allowed' i member
  · rw [run_append, ran, Option.bind_some, ran']

theorem Reaches.invariant (inv : σ → Prop)
    (keep : ∀ s i s', inv s → ok i → step s i = some s' → inv s') (reached : Reaches step ok s s₁)
    (init : inv s) : inv s₁ := by
  obtain ⟨is, allowed, ran⟩ := reached
  induction is generalizing s with
  | nil =>
    cases ran
    exact init
  | cons i is ih =>
    rw [run_cons, Option.bind_eq_some_iff] at ran
    obtain ⟨s', first, ran⟩ := ran
    have kept := keep s i s' init (allowed i List.mem_cons_self) first
    exact ih kept (fun j member => allowed j (List.mem_cons_of_mem i member)) ran

/-- Where some run makes the measure smaller as long as the goal is not met, some run meets
the goal. -/
theorem reaches_goal (inv goal : σ → Prop) (measure : σ → Nat)
    (progress : ∀ s, inv s → ¬goal s →
      ∃ s', Reaches step ok s s' ∧ inv s' ∧ measure s' < measure s)
    (holds : inv s) : ∃ s', Reaches step ok s s' ∧ inv s' ∧ goal s' := by
  induction size : measure s using Nat.strongRecOn generalizing s with
  | _ n ih =>
    by_cases met : goal s
    · exact ⟨s, .refl s, holds, met⟩
    · obtain ⟨s₁, moved, holds₁, smaller⟩ := progress s holds met
      obtain ⟨s₂, moved', holds₂, met'⟩ := ih _ (size ▸ smaller) holds₁ rfl
      exact ⟨s₂, moved.trans moved', holds₂, met'⟩

end Progress

/-! ### Simulation -/

section Simulation

variable {τ : Type} {next : τ → τ} {inv : σ → Prop} {abs : σ → τ}

/-- Where every step does nothing or what `next` does, every run ends at an iterate. -/
theorem run_simulates (keep : ∀ s i s', inv s → step s i = some s' →
      inv s' ∧ (abs s' = abs s ∨ abs s' = next (abs s)))
    {s₀ s : σ} {is : List ι} (init : inv s₀) (ran : run step s₀ is = some s) :
    inv s ∧ ∃ n, abs s = next^[n] (abs s₀) := by
  refine run_invariant (fun s => inv s ∧ ∃ n, abs s = next^[n] (abs s₀)) ?_ ⟨init, 0, rfl⟩ ran
  rintro s i s' ⟨holds, n, reached⟩ stepped
  obtain ⟨kept, same | moved⟩ := keep s i s' holds stepped
  · exact ⟨kept, n, same.trans reached⟩
  · exact ⟨kept, n + 1, by rw [moved, reached, Function.iterate_succ_apply']⟩

/-- Where a run can always be continued by what `next` does, it can be continued to any
later iterate. -/
theorem run_catches_up (keep : ∀ s i s', inv s → step s i = some s' → inv s')
    (advance : ∀ s, inv s → ∃ is s', run step s is = some s' ∧ abs s' = next (abs s))
    {s : σ} (holds : inv s) (n : Nat) :
    ∃ is s', run step s is = some s' ∧ abs s' = next^[n] (abs s) := by
  induction n with
  | zero => exact ⟨[], s, rfl, rfl⟩
  | succ n ih =>
    obtain ⟨is, s₁, ran, reached⟩ := ih
    obtain ⟨js, s₂, ran', moved⟩ := advance s₁ (run_invariant inv keep holds ran)
    refine ⟨is ++ js, s₂, ?_, ?_⟩
    · rw [run_append, ran, Option.bind_some, ran']
    · rw [moved, reached, Function.iterate_succ_apply']

end Simulation

end Execution
