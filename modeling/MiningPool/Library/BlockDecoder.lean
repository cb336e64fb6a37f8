import Mathlib.Logic.Function.Iterate
import Mathlib.Data.List.Infix

/-!
# Block decoders

A decoder that says how long a block it wants next, takes a block of exactly that length,
and answers with a message, an error, or nothing yet. Feeding an input to it is a function
of the input alone: it is what a reader that gets the input in pieces is compared with.
-/

/-- The answer `none` asks for another block. -/
structure BlockDecoder (σ β ω ε : Type) where
  need : σ → Nat
  next : σ → List β → σ × Option (Except ε ω)

namespace BlockDecoder

/-- How far an input has been fed. -/
structure Feed (σ β ω ε : Type) where
  state : σ
  rest : List β
  results : List (Except ε ω)
  ended : Bool

variable {σ β ω ε : Type} (D : BlockDecoder σ β ω ε) (ending : Option ε)

def Feed.start (state : σ) (input : List β) : Feed σ β ω ε := ⟨state, input, [], false⟩

/-- Nothing follows an error. -/
def Feed.answer (f : Feed σ β ω ε) (rest : List β) : σ × Option (Except ε ω) → Feed σ β ω ε
  | (state, none) => ⟨state, rest, f.results, f.ended⟩
  | (state, some (.ok message)) => ⟨state, rest, f.results ++ [.ok message], f.ended⟩
  | (state, some (.error e)) => ⟨state, rest, f.results ++ [.error e], true⟩

/-- One block. If the input is too short for it, the end of the input is an error, unless more
may come. -/
def feedStep (f : Feed σ β ω ε) : Feed σ β ω ε :=
  if f.ended then f
  else if f.rest.length < D.need f.state then
    match ending with
    | none => f
    | some e => { f with results := f.results ++ [.error e], ended := true }
  else f.answer (f.rest.drop (D.need f.state)) (D.next f.state (f.rest.take (D.need f.state)))

/-- The input after a number of blocks. -/
def fed (state : σ) (input : List β) (blocks : Nat) : Feed σ β ω ε :=
  (D.feedStep ending)^[blocks] (.start state input)

variable {D ending}

theorem feedStep_ended {f : Feed σ β ω ε} (ended : f.ended = true) : D.feedStep ending f = f := by
  unfold feedStep
  rw [if_pos ended]

theorem feedStep_short {f : Feed σ β ω ε} (more : f.ended = false)
    (short : f.rest.length < D.need f.state) : D.feedStep ending f =
      ending.elim f fun e => { f with results := f.results ++ [.error e], ended := true } := by
  unfold feedStep
  rw [more, if_neg Bool.false_ne_true, if_pos short]
  cases ending with
  | none => rfl
  | some e => rfl

theorem feedStep_block {f : Feed σ β ω ε} {block rest : List β} (more : f.ended = false)
    (split : f.rest = block ++ rest) (full : block.length = D.need f.state) :
    D.feedStep ending f = f.answer rest (D.next f.state block) := by
  have enough : ¬f.rest.length < D.need f.state := by
    rw [split, List.length_append]
    omega
  unfold feedStep
  rw [more, if_neg Bool.false_ne_true, if_neg enough, split, ← full, List.take_left, List.drop_left]

/-- No result is taken back. -/
theorem results_feedStep (f : Feed σ β ω ε) : f.results <+: (D.feedStep ending f).results := by
  unfold feedStep
  split
  · exact List.prefix_refl _
  · split
    · cases ending with
      | none => exact List.prefix_refl _
      | some e => exact List.prefix_append ..
    · generalize D.next f.state (f.rest.take (D.need f.state)) = next
      obtain ⟨state, answer⟩ := next
      cases answer with
      | none => exact List.prefix_refl _
      | some result =>
        cases result with
        | ok message => exact List.prefix_append ..
        | error e => exact List.prefix_append ..

theorem results_iterate (f : Feed σ β ω ε) (blocks : Nat) :
    f.results <+: ((D.feedStep ending)^[blocks] f).results := by
  induction blocks with
  | zero => exact List.prefix_refl _
  | succ blocks ih =>
    rw [Function.iterate_succ_apply']
    exact ih.trans (results_feedStep _)

/-- More blocks give more results. -/
theorem fed_prefix {state : σ} {input : List β} {few many : Nat} (le : few ≤ many) :
    (D.fed ending state input few).results <+: (D.fed ending state input many).results := by
  obtain ⟨more, rfl⟩ := Nat.exists_eq_add_of_le' le
  rw [fed, fed, Function.iterate_add_apply]
  exact results_iterate _ more

/-- Where one more block changes nothing, no number of blocks does. -/
theorem fed_fixed {state : σ} {input : List β} {few many : Nat} (le : few ≤ many)
    (fixed : D.feedStep ending (D.fed ending state input few) = D.fed ending state input few) :
    D.fed ending state input many = D.fed ending state input few := by
  obtain ⟨more, rfl⟩ := Nat.exists_eq_add_of_le' le
  rw [fed, Function.iterate_add_apply]
  exact Function.iterate_fixed fixed more

end BlockDecoder
