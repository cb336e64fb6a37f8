import Mathlib.Init

/-!
# Handlers

A sequential handler over a private state: it may read and change the state, have
effects, write to a socket, and stop with an error. What it did before an error
stays done. Each coming write succeeds or fails as the world says.

The rules come in groups: inversion of a run that succeeds, effects of a run whatever its
outcome, state changes of a run whatever its outcome, and handlers that follow a script up to
the write that fails.
-/

/-- What a handler runs on. Past the end of `socket` every write succeeds. -/
structure World (σ ε : Type) where
  state : σ
  effects : List ε
  socket : List Bool

def Handler (σ ε α : Type) : Type := World σ ε → Except String α × World σ ε

namespace Handler

variable {σ ε α β : Type}

instance : Monad (Handler σ ε) where
  pure a := fun w => (.ok a, w)
  bind x f := fun w =>
    match x w with
    | (.ok a, w') => f a w'
    | (.error e, w') => (.error e, w')

def getState : Handler σ ε σ := fun w => (.ok w.state, w)

def modifyState (f : σ → σ) : Handler σ ε Unit := fun w => (.ok (), { w with state := f w.state })

def ofExcept (x : Except String α) : Handler σ ε α := fun w => (x, w)

def fail (msg : String) : Handler σ ε α := ofExcept (.error msg)

/-- An effect that cannot fail. -/
def emit (e : ε) : Handler σ ε Unit := fun w => (.ok (), { w with effects := w.effects ++ [e] })

/-- An effect that is a write to the socket: it takes place or is an error. -/
def write (e : ε) (context : String) : Handler σ ε Unit := fun w =>
  match w.socket with
  | false :: socket => (.error context, { w with socket })
  | _ :: socket => (.ok (), { w with effects := w.effects ++ [e], socket })
  | [] => (.ok (), { w with effects := w.effects ++ [e] })

theorem bind_apply (x : Handler σ ε α) (f : α → Handler σ ε β) (w : World σ ε) :
    (x >>= f) w = match x w with
      | (.ok a, w') => f a w'
      | (.error e, w') => (.error e, w') := rfl

@[simp] theorem pure_apply (a : α) (w : World σ ε) : (pure a : Handler σ ε α) w = (.ok a, w) := rfl

/-! ### Runs that succeed -/

theorem bind_eq_ok {x : Handler σ ε α} {f : α → Handler σ ε β} {b : β} {w w' : World σ ε} :
    (x >>= f) w = (.ok b, w') ↔ ∃ a w₁, x w = (.ok a, w₁) ∧ f a w₁ = (.ok b, w') := by
  rw [bind_apply]
  cases run : x w with
  | mk result w₁ =>
    cases result with
    | ok a =>
      constructor
      · intro h
        exact ⟨a, w₁, rfl, h⟩
      · rintro ⟨a', w₂, eq, h⟩
        cases eq
        exact h
    | error e => simp

theorem getState_eq_ok {s : σ} {w w' : World σ ε} :
    getState w = (.ok s, w') ↔ w.state = s ∧ w = w' := by
  simp [getState]

theorem modifyState_eq_ok {f : σ → σ} {u : Unit} {w w' : World σ ε} :
    modifyState f w = (.ok u, w') ↔ w' = { w with state := f w.state } := by
  simp [modifyState, eq_comm]

theorem ofExcept_eq_ok {x : Except String α} {a : α} {w w' : World σ ε} :
    ofExcept x w = (.ok a, w') ↔ x = .ok a ∧ w = w' := by
  simp [ofExcept]

theorem emit_eq_ok {e : ε} {u : Unit} {w w' : World σ ε} :
    emit e w = (.ok u, w') ↔ w' = { w with effects := w.effects ++ [e] } := by
  simp [emit, eq_comm]

/-- A write that succeeds had its effect. -/
theorem write_eq_ok {e : ε} {context : String} {u : Unit} {w w' : World σ ε}
    (h : write e context w = (.ok u, w')) :
    w' = { w with effects := w.effects ++ [e], socket := w.socket.tail } := by
  unfold write at h
  split at h
  · cases h
  next socket eq =>
    cases h
    rw [eq]
    rfl
  next eq =>
    cases h
    rw [eq]
    rfl

theorem write_open {e : ε} {context : String} {w : World σ ε} (writable : w.socket = []) :
    write e context w = (.ok (), { w with effects := w.effects ++ [e] }) := by
  simp [write, writable]

/-- A write takes place, or is an error and changes nothing but the socket. -/
theorem write_cases (e : ε) (context : String) (w : World σ ε) :
    write e context w = (.error context, { w with socket := w.socket.tail }) ∨
      write e context w =
        (.ok (), { w with effects := w.effects ++ [e], socket := w.socket.tail }) := by
  obtain ⟨state, effects, socket⟩ := w
  rcases socket with _ | ⟨_ | _, socket⟩
  · exact .inr rfl
  · exact .inl rfl
  · exact .inr rfl

/-! ### Effects of any run -/

/-- Whatever the outcome, `x` only adds effects, and each of them satisfies `P`. -/
def Emits (P : ε → Prop) (x : Handler σ ε α) : Prop :=
  ∀ w, ∃ added, (x w).2.effects = w.effects ++ added ∧ ∀ e ∈ added, P e

variable {P : ε → Prop}

theorem Emits.pure (a : α) : Emits P (pure a : Handler σ ε α) := fun _ => ⟨[], by simp, by simp⟩

theorem Emits.bind {x : Handler σ ε α} {f : α → Handler σ ε β} (hx : Emits P x)
    (hf : ∀ a, Emits P (f a)) : Emits P (x >>= f) := by
  intro w
  obtain ⟨first, eq, all⟩ := hx w
  rw [bind_apply]
  cases run : x w with
  | mk result w₁ =>
    rw [run] at eq
    cases result with
    | error e => exact ⟨first, eq, all⟩
    | ok a =>
      obtain ⟨rest, eq', all'⟩ := hf a w₁
      refine ⟨first ++ rest, ?_, ?_⟩
      · rw [← List.append_assoc, ← eq]
        exact eq'
      · intro e he
        rcases List.mem_append.mp he with he | he
        · exact all e he
        · exact all' e he

theorem Emits.getState : Emits P (getState : Handler σ ε σ) :=
  fun _ => ⟨[], by simp [Handler.getState], by simp⟩

theorem Emits.modifyState (f : σ → σ) : Emits P (modifyState f : Handler σ ε Unit) :=
  fun _ => ⟨[], by simp [Handler.modifyState], by simp⟩

theorem Emits.ofExcept (x : Except String α) : Emits P (ofExcept x : Handler σ ε α) :=
  fun _ => ⟨[], by simp [Handler.ofExcept], by simp⟩

theorem Emits.write {e : ε} {context : String} (h : P e) :
    Emits P (write e context : Handler σ ε Unit) := by
  intro w
  unfold Handler.write
  split
  · exact ⟨[], by simp, by simp⟩
  · exact ⟨[e], rfl, by simpa using h⟩
  · exact ⟨[e], rfl, by simpa using h⟩

/-! ### State changes of any run -/

/-- Whatever the outcome, the state moves along `R`. -/
def Moves (R : σ → σ → Prop) (x : Handler σ ε α) : Prop := ∀ w, R w.state (x w).2.state

variable {R : σ → σ → Prop}

theorem Moves.pure (refl : ∀ s, R s s) (a : α) : Moves R (pure a : Handler σ ε α) :=
  fun w => refl w.state

theorem Moves.bind (trans : ∀ {s t u}, R s t → R t u → R s u) {x : Handler σ ε α}
    {f : α → Handler σ ε β} (hx : Moves R x) (hf : ∀ a, Moves R (f a)) : Moves R (x >>= f) := by
  intro w
  have first := hx w
  rw [bind_apply]
  cases run : x w with
  | mk result w₁ =>
    rw [run] at first
    cases result with
    | error e => exact first
    | ok a => exact trans first (hf a w₁)

theorem Moves.getState (refl : ∀ s, R s s) : Moves R (getState : Handler σ ε σ) :=
  fun w => refl w.state

/-- What follows a computed value may rely on the computation. -/
theorem Moves.ofExcept_bind (refl : ∀ s, R s s) {x : Except String α} {f : α → Handler σ ε β}
    (hf : ∀ a, x = .ok a → Moves R (f a)) : Moves R (Handler.ofExcept x >>= f) := by
  intro w
  rw [bind_apply, Handler.ofExcept]
  cases x with
  | error e => exact refl w.state
  | ok a => exact hf a rfl w

theorem Moves.ofExcept (refl : ∀ s, R s s) (x : Except String α) :
    Moves R (ofExcept x : Handler σ ε α) := fun w => refl w.state

theorem Moves.modifyState {f : σ → σ} (h : ∀ s, R s (f s)) :
    Moves R (modifyState f : Handler σ ε Unit) := fun w => h w.state

theorem Moves.write (refl : ∀ s, R s s) (e : ε) (context : String) :
    Moves R (write e context : Handler σ ε Unit) := by
  intro w
  unfold Handler.write
  split <;> exact refl w.state

/-! ### Handlers that follow a script -/

/-- The result `r` of a run on `w` that leaves the state alone and has the effects of
`script` in order, up to the first write that fails. -/
structure Performed (script : List ε) (w : World σ ε) (r : Except String Unit × World σ ε) :
    Prop where
  state : r.2.state = w.state
  partly : ∃ added, added <+: script ∧ r.2.effects = w.effects ++ added
  wholly : r.1 = .ok () → r.2.effects = w.effects ++ script
  writable : w.socket = [] → r = (.ok (), { w with effects := w.effects ++ script })

def Performs (script : List ε) (x : Handler σ ε Unit) : Prop := ∀ w, Performed script w (x w)

namespace Performs

variable {script rest : List ε} {x y : Handler σ ε Unit}

protected theorem pure : Performs [] (pure () : Handler σ ε Unit) := fun w =>
  { state := rfl
    partly := ⟨[], List.prefix_refl _, by simp⟩
    wholly := fun _ => by simp
    writable := fun _ => by simp }

protected theorem emit (e : ε) : Performs [e] (emit e : Handler σ ε Unit) := fun _ =>
  { state := rfl
    partly := ⟨[e], List.prefix_refl _, rfl⟩
    wholly := fun _ => rfl
    writable := fun _ => rfl }

protected theorem write (e : ε) (context : String) :
    Performs [e] (write e context : Handler σ ε Unit) := fun w =>
  { state := by rcases write_cases e context w with h | h <;> rw [h]
    partly := by
      rcases write_cases e context w with h | h <;> rw [h]
      · exact ⟨[], List.nil_prefix, by simp⟩
      · exact ⟨[e], List.prefix_refl _, rfl⟩
    wholly := by
      intro done
      rcases write_cases e context w with h | h
      · rw [h] at done
        cases done
      · rw [h]
    writable := write_open }

protected theorem bind (hx : Performs script x) (hy : Performs rest y) :
    Performs (script ++ rest) (x >>= fun _ => y) := by
  intro w
  constructor
  case state =>
    have first := (hx w).state
    rw [bind_apply]
    cases run : x w with
    | mk result w₁ =>
      rw [run] at first
      cases result with
      | error e => exact first
      | ok a => exact (hy w₁).state.trans first
  case partly =>
    obtain ⟨added, before, eq⟩ := (hx w).partly
    rw [bind_apply]
    cases run : x w with
    | mk result w₁ =>
      rw [run] at eq
      cases result with
      | error e => exact ⟨added, before.trans (List.prefix_append script rest), eq⟩
      | ok a =>
        obtain ⟨added', before', eq'⟩ := (hy w₁).partly
        refine ⟨script ++ added', (List.prefix_append_right_inj script).mpr before', ?_⟩
        have first := (hx w).wholly (by rw [run])
        rw [run] at first
        rw [← List.append_assoc, ← first]
        exact eq'
  case wholly =>
    have first := (hx w).wholly
    rw [bind_apply]
    cases run : x w with
    | mk result w₁ =>
      rw [run] at first
      cases result with
      | error e =>
        intro done
        cases done
      | ok a =>
        intro done
        rw [(hy w₁).wholly done, first rfl, List.append_assoc]
  case writable =>
    intro writable
    rw [bind_apply, (hx w).writable writable]
    simpa only [List.append_assoc] using
      (hy { w with effects := w.effects ++ script }).writable writable

end Performs

/-! ### Where a script is cut -/

/-- A run that ends with an error has had the effects of `script` up to a write. -/
def StopsAt (isWrite : ε → Prop) (script : List ε) (x : Handler σ ε Unit) : Prop :=
  ∀ w e, (x w).1 = .error e → ∃ added lost rest, isWrite lost ∧ script = added ++ lost :: rest ∧
    (x w).2.effects = w.effects ++ added

namespace StopsAt

variable {isWrite : ε → Prop} {script rest : List ε} {x y : Handler σ ε Unit}

protected theorem pure : StopsAt isWrite [] (pure () : Handler σ ε Unit) := by
  intro w e failed
  cases failed

protected theorem emit (e : ε) : StopsAt isWrite [e] (emit e : Handler σ ε Unit) := by
  intro w e failed
  cases failed

protected theorem write {e : ε} (isWrite_e : isWrite e) (context : String) :
    StopsAt isWrite [e] (write e context : Handler σ ε Unit) := by
  intro w error failed
  rcases write_cases e context w with h | h
  · rw [h]
    exact ⟨[], e, [], isWrite_e, rfl, by simp⟩
  · rw [h] at failed
    cases failed

protected theorem bind (hx : StopsAt isWrite script x) (performs : Performs script x)
    (hy : StopsAt isWrite rest y) : StopsAt isWrite (script ++ rest) (x >>= fun _ => y) := by
  intro w e failed
  have first := hx w
  have done := (performs w).wholly
  rw [bind_apply] at failed ⊢
  cases run : x w with
  | mk result w₁ =>
    rw [run] at failed first done
    cases result with
    | error e' =>
      obtain ⟨added, lost, left, isWrite_lost, split, effects⟩ := first e' rfl
      refine ⟨added, lost, left ++ rest, isWrite_lost, ?_, effects⟩
      rw [split, List.append_assoc, List.cons_append]
    | ok u =>
      obtain ⟨added, lost, left, isWrite_lost, split, effects⟩ := hy w₁ e failed
      refine ⟨script ++ added, lost, left, isWrite_lost, ?_, ?_⟩
      · rw [split, List.append_assoc]
      · rw [← List.append_assoc, ← done rfl]
        exact effects

end StopsAt

end Handler
