import MiningPool.Library.BlockDecoder

/-!
# Framed streams

An encoder of messages into a stream, and a block decoder at its other end. What is required of
the pair speaks of one message: what the encoder makes of it is taken by the decoder block by
block, and answered with the message at the last one. It follows for any stream of messages,
also for one that ends within a message.
-/

/-- An encoder with a state. -/
structure FrameEncoder (ρ β ω ε : Type) where
  encode : ρ → ω → Except ε (List β) × ρ

namespace BlockDecoder

variable {ρ σ β ω ε : Type} (D : BlockDecoder σ β ω ε)

/-- The blocks of one message, of which only the last one is answered. -/
inductive Frame : σ → List β → ω → σ → Prop
  | last {state state' block m} (full : block.length = D.need state)
      (next : D.next state block = (state', some (.ok m))) : Frame state block m state'
  | more {state between state' block input m} (full : block.length = D.need state)
      (next : D.next state block = (between, none)) (rest : Frame between input m state') :
      Frame state (block ++ input) m state'

/-- The blocks of some messages. -/
inductive Frames : σ → List β → List ω → σ → Prop
  | nil (state) : Frames state [] [] state
  | cons {state between state' input rest m messages} (first : D.Frame state input m between)
      (others : Frames between rest messages state') :
      Frames state (input ++ rest) (m :: messages) state'

/-- The encoder and the decoder are in step at the states that `sync` relates. -/
structure InStep (E : FrameEncoder ρ β ω ε) (sync : ρ → σ → Prop) : Prop where
  frame : ∀ r state m input r', sync r state → E.encode r m = (.ok input, r') →
    ∃ state', D.Frame state input m state' ∧ sync r' state'
  /-- A decoder that wants no input before the next message is still in step when it got none. -/
  idle : ∀ r state, sync r state → D.need state = 0 →
    ∃ state', D.next state [] = (state', none) ∧ sync r state'

/-- The messages whose bytes are all there; after them nothing, or a message that is cut off. -/
inductive InFlight (sync : ρ → σ → Prop) (r : ρ) : Bool → σ → List β → List ω → Prop
  | whole {state input messages state'} (frames : D.Frames state input messages state')
      (synced : sync r state') : InFlight sync r false state input messages
  | cut {state input messages between part missing m state'}
      (frames : D.Frames state input messages between) (lost : missing ≠ [])
      (frame : D.Frame between (part ++ missing) m state') :
      InFlight sync r true state (input ++ part) messages

variable {D} {sync : ρ → σ → Prop} {r r' : ρ} {isCut : Bool} {state : σ} {input : List β}
  {messages : List ω}

theorem Frames.append {state' state'' : σ} {input' : List β} {messages' : List ω}
    (frames : D.Frames state input messages state')
    (frames' : D.Frames state' input' messages' state'') :
    D.Frames state (input ++ input') (messages ++ messages') state'' := by
  induction frames with
  | nil => exact frames'
  | cons first _ ih =>
    rw [List.append_assoc]
    exact .cons first (ih frames')

/-- A block of no bytes before a message. -/
theorem Frame.silent {between state' : σ} {m : ω} (silent : D.need state = 0)
    (next : D.next state [] = (between, none)) (rest : D.Frame between input m state') :
    D.Frame state input m state' :=
  .more (List.length_nil.trans silent.symm) next rest

/-! ### Writing -/

/-- One more message. -/
theorem InFlight.write {E : FrameEncoder ρ β ω ε} (inStep : D.InStep E sync)
    (flight : D.InFlight sync r false state input messages) {m : ω} {added : List β}
    (encoded : E.encode r m = (.ok added, r')) :
    D.InFlight sync r' false state (input ++ added) (messages ++ [m]) := by
  cases flight with
  | @whole _ _ _ state' frames synced =>
    obtain ⟨state'', frame, synced'⟩ := inStep.frame r state' m added r' synced encoded
    have one : D.Frames state' added [m] state'' := by
      simpa using Frames.cons frame (.nil state'')
    exact .whole (frames.append one) synced'

/-- A part of one more message. -/
theorem InFlight.cutOff {E : FrameEncoder ρ β ω ε} (inStep : D.InStep E sync)
    (flight : D.InFlight sync r false state input messages) {m : ω} {added : List β}
    (encoded : E.encode r m = (.ok added, r')) {n : Nat} (within : n < added.length) :
    D.InFlight sync r' true state (input ++ added.take n) messages := by
  cases flight with
  | @whole _ _ _ state' frames synced =>
    obtain ⟨state'', frame, _⟩ := inStep.frame r state' m added r' synced encoded
    rw [← List.take_append_drop n added] at frame
    refine .cut frames ?_ frame
    rw [ne_eq, List.drop_eq_nil_iff]
    omega

/-- A message that is there in full begins with the block that the decoder wants. -/
theorem InFlight.enough (flight : D.InFlight sync r isCut state input messages)
    (some_ : messages ≠ []) : D.need state ≤ input.length := by
  have begins {m : ω} {between : σ} {first : List β} (frame : D.Frame state first m between)
      (rest : List β) : D.need state ≤ (first ++ rest).length := by
    cases frame with
    | last full =>
      rw [List.length_append]
      omega
    | more full =>
      rw [List.length_append, List.length_append]
      omega
  cases flight with
  | whole frames =>
    cases frames with
    | nil => exact absurd rfl some_
    | cons first others => exact begins first _
  | cut frames =>
    cases frames with
    | nil => exact absurd rfl some_
    | cons first others =>
      rw [List.append_assoc]
      exact begins first _

/-! ### Feeding -/

section Feeding

variable {E : FrameEncoder ρ β ω ε} {e : Option ε} {f : Feed σ β ω ε}

/-- A block at the head of a message that is there in full. -/
theorem feedStep_frame {m : ω} {state' : σ} {rest : List β} (more : f.ended = false)
    (frame : D.Frame f.state input m state') (split : f.rest = input ++ rest) :
    D.feedStep e f = ⟨state', rest, f.results ++ [.ok m], false⟩ ∨
    ∃ between input', D.feedStep e f = ⟨between, input' ++ rest, f.results, false⟩ ∧
      D.Frame between input' m state' := by
  cases frame with
  | last full next =>
    rw [feedStep_block more split full, next, Feed.answer, more]
    exact .inl rfl
  | more full next others =>
    rw [List.append_assoc] at split
    rw [feedStep_block more split full, next, Feed.answer, more]
    exact .inr ⟨_, _, rfl, others⟩

/-- A message that is cut off is never answered. -/
theorem feedStep_part {part missing : List β} {m : ω} {state' : σ} (more : f.ended = false)
    (lost : missing ≠ []) (frame : D.Frame f.state (part ++ missing) m state')
    (split : f.rest = part) :
    f.rest.length < D.need f.state ∨
    ∃ between part', D.feedStep e f = ⟨between, part', f.results, false⟩ ∧
      D.Frame between (part' ++ missing) m state' := by
  have positive : 0 < missing.length := List.length_pos_iff.mpr lost
  generalize whole : part ++ missing = input at frame
  cases frame with
  | last full next =>
    left
    rw [split, ← full, ← whole, List.length_append]
    omega
  | @more _ between _ block input _ full next others =>
    by_cases short : f.rest.length < D.need f.state
    · exact .inl short
    right
    -- the block ends within what is there
    obtain ⟨part', rfl, rfl⟩ : ∃ part', part = block ++ part' ∧ input = part' ++ missing := by
      rw [split] at short
      rcases List.append_eq_append_iff.mp whole with ⟨later, rfl, eq⟩ | ⟨later, rfl, eq⟩
      · have none : later = [] := by
          rw [← List.length_eq_zero_iff]
          rw [List.length_append] at full
          omega
        subst none
        exact ⟨[], by simp, by simpa using eq.symm⟩
      · exact ⟨later, rfl, eq⟩
    rw [feedStep_block more split full, next, Feed.answer, more]
    exact ⟨_, _, rfl, others⟩

/-- One block of a stream of which something is there in full. -/
private theorem feedStep_first {m : ω} {between : σ} {first rest : List β} (more : f.ended = false)
    (frame : D.Frame f.state first m between) (split : f.rest = first ++ rest)
    (others : D.InFlight sync r isCut between rest messages)
    (joined : ∀ state input, D.Frame state input m between →
      D.InFlight sync r isCut state (input ++ rest) (m :: messages)) :
    (D.feedStep e f).ended = false ∧ ∃ arrived waiting, m :: messages = arrived ++ waiting ∧
      (D.feedStep e f).results = f.results ++ arrived.map .ok ∧
      D.InFlight sync r isCut (D.feedStep e f).state (D.feedStep e f).rest waiting := by
  rcases feedStep_frame (e := e) more frame split with
    fed | ⟨between', input', fed, frame'⟩
  · rw [fed]
    exact ⟨rfl, [m], messages, rfl, rfl, others⟩
  · rw [fed]
    exact ⟨rfl, [], m :: messages, rfl, by simp, joined _ _ frame'⟩

/-- One block of a stream: a message arrives, none does, or the stream ends and all have arrived. -/
theorem feedStep_inFlight (inStep : D.InStep E sync) (more : f.ended = false)
    (flight : D.InFlight sync r isCut f.state f.rest messages) :
    ((D.feedStep e f).ended = false ∧ ∃ arrived waiting, messages = arrived ++ waiting ∧
      (D.feedStep e f).results = f.results ++ arrived.map .ok ∧
      D.InFlight sync r isCut (D.feedStep e f).state (D.feedStep e f).rest waiting) ∨
    (D.feedStep e f).ended = true ∧ messages = [] ∧
      ∃ error, e = some error ∧ (D.feedStep e f).results = f.results ++ [.error error] := by
  -- too little is there for a block, so no message is
  have waits (none_ : messages = []) (short : f.rest.length < D.need f.state) :
      ((D.feedStep e f).ended = false ∧ ∃ arrived waiting, messages = arrived ++ waiting ∧
        (D.feedStep e f).results = f.results ++ arrived.map .ok ∧
        D.InFlight sync r isCut (D.feedStep e f).state (D.feedStep e f).rest waiting) ∨
      (D.feedStep e f).ended = true ∧ messages = [] ∧
        ∃ error, e = some error ∧ (D.feedStep e f).results = f.results ++ [.error error] := by
    rw [feedStep_short more short]
    cases e with
    | none => exact .inl ⟨more, [], messages, rfl, by simp, flight⟩
    | some error => exact .inr ⟨rfl, none_, error, rfl, rfl⟩
  generalize there : f.rest = input at flight
  generalize here : f.state = state at flight
  cases flight with
  | whole frames synced =>
    cases frames with
    | nil =>
      by_cases silent : D.need state = 0
      · -- the decoder goes on without input
        obtain ⟨state', next, synced'⟩ := inStep.idle r state synced silent
        left
        have full : ([] : List β).length = D.need f.state := by rw [here, silent]; rfl
        rw [feedStep_block more (there.trans (List.append_nil []).symm) full, here, next,
          Feed.answer, more]
        exact ⟨rfl, [], [], rfl, by simp, .whole (.nil _) synced'⟩
      · exact waits rfl (by rw [there, here]; exact Nat.pos_of_ne_zero silent)
    | cons first others =>
      left
      subst here
      exact feedStep_first more first there (.whole others synced) fun _ _ frame =>
        .whole (.cons frame others) synced
  | cut frames lost frame =>
    cases frames with
    | nil =>
      subst here
      rw [List.nil_append] at there
      rcases feedStep_part (e := e) more lost frame there with
        short | ⟨between, part', fed, frame'⟩
      · exact waits rfl short
      · left
        rw [fed]
        refine ⟨rfl, [], [], rfl, by simp, ?_⟩
        have cut : D.InFlight sync r true between ([] ++ part') [] :=
          .cut (.nil between) lost frame'
        exact cut
    | cons first others =>
      left
      subst here
      rw [List.append_assoc] at there
      refine feedStep_first more first there (.cut others lost frame) fun _ _ frame' => ?_
      rw [← List.append_assoc]
      exact .cut (.cons frame' others) lost frame

/-- A message that is there in full arrives. -/
theorem feed_frame {m : ω} {state' : σ} {rest : List β} (more : f.ended = false)
    (frame : D.Frame f.state input m state') (split : f.rest = input ++ rest) :
    ∃ blocks, (D.feedStep e)^[blocks] f = ⟨state', rest, f.results ++ [.ok m], false⟩ := by
  generalize here : f.state = state at frame
  induction frame generalizing f with
  | last full next =>
    subst here
    refine ⟨1, ?_⟩
    rw [Function.iterate_one, feedStep_block more split full, next, Feed.answer, more]
  | more full next _ ih =>
    subst here
    rw [List.append_assoc] at split
    have fed : D.feedStep e f = _ := feedStep_block more split full
    rw [next, Feed.answer, more] at fed
    obtain ⟨blocks, later⟩ := ih (f := ⟨_, _, f.results, false⟩) rfl rfl rfl
    refine ⟨blocks + 1, ?_⟩
    rw [Function.iterate_succ_apply, fed, later]

/-- All that is there in full arrives. -/
theorem feed_frames {state' : σ} {rest : List β} (more : f.ended = false)
    (frames : D.Frames f.state input messages state') (split : f.rest = input ++ rest) :
    ∃ blocks, (D.feedStep e)^[blocks] f =
      ⟨state', rest, f.results ++ messages.map .ok, false⟩ := by
  generalize here : f.state = state at frames
  induction frames generalizing f with
  | nil state =>
    refine ⟨0, ?_⟩
    obtain ⟨_, _, _, _⟩ := f
    simp_all
  | @cons state between state' input others m messages first _ ih =>
    rw [List.append_assoc] at split
    subst here
    obtain ⟨blocks, fed⟩ := feed_frame (e := e) more first split
    obtain ⟨blocks', fed'⟩ := ih (f := ⟨between, others ++ rest, f.results ++ [.ok m], false⟩) rfl
      rfl rfl
    refine ⟨blocks' + blocks, ?_⟩
    rw [Function.iterate_add_apply, fed, fed']
    simp

end Feeding

end BlockDecoder
