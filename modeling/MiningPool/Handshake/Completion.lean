import MiningPool.Handshake.Order

/-!
# Getting through a handshake

## Main result

`NoiseSession.completes`: as long as nothing has failed, both ends can get through their handshakes
and read all that was written.
-/

namespace MiningPool

variable {κ σ τ η ρ δ φ : Type}

section Completion

variable {C : NoiseCodec κ σ τ η ρ δ φ} {sync : ρ → δ → Prop} {role : HandshakeRole}

/-- An event of the handshake that is not a failure, or a read of what follows. -/
def NoiseEvent.Forward : NoiseEvent κ φ → Prop
  | .hello .. | .turn .. | .receive .. | .read .. => True
  | _ => False

namespace NoiseSession

variable {s s' : NoiseSession σ η ρ δ φ}

theorem Joint.reaches (laws : C.Agrees sync) (joint : s.Joint C sync)
    (reached : Execution.Reaches (NoiseSession.step C) NoiseEvent.Forward s s') :
    s'.Joint C sync := by
  refine reached.invariant (fun s => s.Joint C sync) ?_ joint
  intro s event s' joint forward stepped
  refine joint.step laws ?_ stepped
  cases event with
  | write => cases forward
  | _ => trivial

section Forward

variable {socket : Socket} {state : σ} {buf : List UInt8}

/-- The message of the peer is taken from the stream as soon as it is there. -/
private theorem reaches_full
    (found : s.party role = .waiting socket state
      (.reading (C.asked role) (C.awaited role) buf))
    (fits : buf.length ≤ C.awaited role)
    (enough : C.awaited role ≤ (buf ++ socket.incoming).length) :
    ∃ message rest, message.length = C.awaited role ∧ buf ++ socket.incoming = message ++ rest ∧
      Execution.Reaches (step C) NoiseEvent.Forward s (s.setParty (.waiting ⟨rest, socket.ending⟩
        state (.reading (C.asked role) (C.awaited role) message)) role) := by
  rw [List.length_append] at enough
  by_cases full : buf.length = C.awaited role
  · refine ⟨buf, socket.incoming, full, rfl, ?_⟩
    rw [← found, setParty_party]
    exact .refl s
  · refine ⟨buf ++ socket.incoming.take (C.awaited role - buf.length),
      socket.incoming.drop (C.awaited role - buf.length), ?_, ?_, ?_⟩
    · rw [List.length_append, List.length_take_of_le (by omega)]
      omega
    · rw [List.append_assoc, List.take_append_drop]
    · refine .of_step (i := .receive role (C.awaited role - buf.length)) trivial ?_
      have some_ : 0 < C.awaited role - buf.length ∧
          C.awaited role - buf.length ≤ C.awaited role - buf.length ∧
          C.awaited role - buf.length ≤ socket.incoming.length := by omega
      simp only [step, found, if_pos some_]

private theorem reaches_message (laws : C.Agrees sync) (draw : κ) {read : HandshakeRead η}
    (found : s.party role = .waiting socket state read) (awaits : read.Awaits C role)
    (enough : C.awaited role ≤ (read.buf ++ socket.incoming).length) :
    ∃ message rest, message.length = C.awaited role ∧
      read.buf ++ socket.incoming = message ++ rest ∧
      Execution.Reaches (step C) NoiseEvent.Forward s (s.setParty (.waiting ⟨rest, socket.ending⟩
        state (.reading (C.asked role) (C.awaited role) message)) role) := by
  -- one turn of the loop
  have turn {s : NoiseSession σ η ρ δ φ} {read read' : HandshakeRead η}
      (found : s.party role = .waiting socket state read)
      (turned : C.turn role read = some (.again read')) :
      Execution.Reaches (step C) NoiseEvent.Forward s
        (s.setParty (.waiting socket state read') role) := by
    refine .of_step (i := .turn role draw .whole) trivial ?_
    simp only [step, found, turned]
  have fromAsked {s : NoiseSession σ η ρ δ φ}
      (found : s.party role = .waiting socket state (.top (C.asked role)))
      (enough : C.awaited role ≤ socket.incoming.length) :
      ∃ message rest, message.length = C.awaited role ∧ socket.incoming = message ++ rest ∧
        Execution.Reaches (step C) NoiseEvent.Forward s (s.setParty (.waiting ⟨rest, socket.ending⟩
          state (.reading (C.asked role) (C.awaited role) message)) role) := by
    have enough' : C.awaited role ≤ ([] ++ socket.incoming).length := enough
    obtain ⟨message, rest, full, same, reached⟩ :=
      reaches_full (party_setParty s _ role) (Nat.zero_le _) enough'
    rw [setParty_setParty] at reached
    exact ⟨message, rest, full, same, (turn found (NoiseCodec.turn_asked laws role)).trans reached⟩
  cases awaits with
  | first =>
    obtain ⟨message, rest, full, same, reached⟩ := fromAsked (party_setParty s _ role) enough
    rw [setParty_setParty] at reached
    exact ⟨message, rest, full, same, (turn found (NoiseCodec.turn_first laws role)).trans reached⟩
  | asked => exact fromAsked found enough
  | reading fits => exact reaches_full found fits enough

end Forward

/-- Once the responder has answered, the initiator can go on until it is connected. -/
private theorem Joint.reaches_initiator (laws : C.Agrees sync) (succeeds : C.Succeeds)
    (joint : s.Joint C sync) {writer : ρ} {written : List φ} {loop : SelectLoop δ φ}
    (found : s.responder = .connected writer written loop) (alive : ¬s.initiator.Failed) :
    ∃ writer' loop', Execution.Reaches (NoiseSession.step C) NoiseEvent.Forward s
      ⟨.connected writer' s.initiator.written loop', .connected writer written loop⟩ := by
  obtain ⟨draw, _⟩ := succeeds.hello
  cases joint with
  | begin waits => exact absurd found waits.not_connected
  | stalled _ _ waits => exact absurd found waits.not_connected
  | greeted _ _ _ waits => exact absurd found waits.not_connected
  | @answered i state reply rest ending _ _ _ size origin pending agreed matched =>
    cases found
    cases pending with
    | failed => exact absurd ⟨_, _, rfl⟩ alive
    | @waiting incoming read awaits here =>
      have enough : C.awaited .initiator ≤ (read.buf ++ incoming).length := by
        rw [here, List.length_append, size]
        exact Nat.le_add_right _ _
      have here' : NoiseSession.party ⟨.waiting ⟨incoming, ending⟩ state read,
        .connected writer written loop⟩ .initiator = .waiting ⟨incoming, ending⟩ state read := rfl
      obtain ⟨message, rest', full, same, reached⟩ :=
        reaches_message laws draw here' awaits enough
      obtain ⟨rfl, rfl⟩ : message = reply ∧ rest' = rest :=
        List.append_inj (same.symm.trans here) (full.trans size.symm)
      obtain ⟨draw₂, transport, state', finished⟩ := succeeds.finish state ⟨message, size⟩ origin
      refine ⟨C.writeHalf state' transport, .new (C.readHalf transport) ⟨rest', ending⟩,
        reached.trans (.of_step (i := .turn .initiator draw₂ .whole) trivial ?_)⟩
      simp only [NoiseSession.step, party_setParty, NoiseCodec.turn_full laws full,
        NoiseCodec.finish, NoiseCodec.connectNoise, Bytes.ofList?, size, dif_pos, finished]
      rfl
  | connected =>
    cases found
    exact ⟨_, _, .refl _⟩

/-- Once the initiator has sent its message, the responder can go on until it is connected. -/
private theorem reaches_responder (laws : C.Agrees sync) (succeeds : C.Succeeds)
    {i r : NoiseParty σ η ρ δ φ} {draw : κ} {hello : List UInt8} {s₀ : σ}
    {ending : Option Ending} (greets : C.step0 draw (C.initialized .initiator) = (.ok hello, s₀))
    (waits : r.Pending C .responder (C.initialized .responder) hello ending) (alive : ¬r.Failed)
    (more : i.socket.ending = none) :
    ∃ bytes writer loop, Execution.Reaches (NoiseSession.step C) NoiseEvent.Forward ⟨i, r⟩
      ⟨i.push bytes none, .connected writer r.written loop⟩ := by
  have size := laws.hello_length greets
  cases waits with
  | failed => exact absurd ⟨_, _, rfl⟩ alive
  | @waiting incoming read awaits here =>
    have enough : C.awaited .responder ≤ (read.buf ++ incoming).length := by
      rw [here, size]
      exact le_rfl
    have here' : NoiseSession.party ⟨i, .waiting ⟨incoming, ending⟩ (C.initialized .responder) read⟩
      .responder = .waiting ⟨incoming, ending⟩ (C.initialized .responder) read := rfl
    obtain ⟨message, rest, full, same, reached⟩ := reaches_message laws draw here' awaits enough
    obtain ⟨rfl, rfl⟩ : message = hello ∧ rest = [] := by
      refine List.append_inj ?_ (full.trans size.symm)
      rw [← same, here, List.append_nil]
    obtain ⟨draw₁, reply, transport, bytes, r₁, r₂, replied, encoded⟩ :=
      succeeds.reply draw ⟨message, size⟩ s₀ greets
    refine ⟨bytes, C.writeHalf r₂ transport, .new (C.readHalf transport) ⟨[], ending⟩,
      reached.trans (.of_step (i := .turn .responder draw₁ .whole) trivial ?_)⟩
    simp only [NoiseSession.step, NoiseCodec.turn_full laws full, NoiseCodec.finish,
      NoiseCodec.acceptNoise, Bytes.ofList?, size, dif_pos, replied, NoiseCodec.sendHandshake,
      encoded, NoiseParty.deliver, HandshakeRole.peer, NoiseSession.party, NoiseSession.setParty,
      more, if_true, Option.map_some]
    rfl

/-- As long as neither end has failed and neither stream has ended, both handshakes can go on to
their end, whatever the responder has written already. -/
private theorem Joint.reaches_connected (laws : C.Agrees sync) (succeeds : C.Succeeds)
    (joint : s.Joint C sync) (alive : ∀ role, ¬(s.party role).Failed)
    (more : ∀ role, (s.party role).socket.ending = none) :
    ∃ writer loop writer' loop', Execution.Reaches (NoiseSession.step C) NoiseEvent.Forward s
      ⟨.connected writer s.initiator.written loop,
        .connected writer' s.responder.written loop'⟩ := by
  have fromGreeted {i r : NoiseParty σ η ρ δ φ} {draw : κ} {hello : List UInt8} {s₀ state : σ}
      {ending ending' : Option Ending} (joint : Joint C sync ⟨i, r⟩)
      (greets : C.step0 draw (C.initialized .initiator) = (.ok hello, s₀))
      (pending : i.Pending C .initiator state [] ending)
      (waits : r.Pending C .responder (C.initialized .responder) hello ending')
      (alive : ¬i.Failed) (alive' : ¬r.Failed) (more : i.socket.ending = none) :
      ∃ writer loop writer' loop', Execution.Reaches (NoiseSession.step C) NoiseEvent.Forward ⟨i, r⟩
        ⟨.connected writer i.written loop, .connected writer' r.written loop'⟩ := by
    obtain ⟨bytes, writer', loop', answered⟩ :=
      reaches_responder laws succeeds greets waits alive' more
    have alive'' : ¬(i.push bytes none).Failed := by
      cases pending with
      | waiting => simp [NoiseParty.Failed, NoiseParty.push]
      | failed => exact absurd ⟨_, _, rfl⟩ alive
    obtain ⟨writer, loop, reached⟩ :=
      (joint.reaches laws answered).reaches_initiator laws succeeds rfl alive''
    rw [NoiseParty.written_push] at reached
    exact ⟨writer, loop, writer', loop', answered.trans reached⟩
  cases joint with
  | @begin ending ending' r waits =>
    obtain ⟨draw, hello, bytes, s₀, s₁, greets, encoded⟩ := succeeds.hello
    obtain rfl := laws.plain encoded
    have begins : Joint C sync ⟨.begin ⟨[], ending⟩, r⟩ := .begin waits
    have sent : NoiseSession.step C ⟨.begin ⟨[], ending⟩, r⟩ (.hello draw .whole) =
        some ⟨.waiting ⟨[], ending⟩ s₁ (.top (C.notInitialized .initiator)),
          r.push bytes none⟩ := by
      have open_ : r.socket.ending = none := more .responder
      simp only [NoiseSession.step, NoiseCodec.hello, greets, NoiseCodec.sendHandshake, encoded,
        NoiseParty.deliver, HandshakeRole.peer, NoiseSession.party, NoiseSession.setParty, open_,
        if_true, Option.map_some]
    have alive' : ¬(r.push bytes none).Failed := by
      cases waits with
      | waiting => simp [NoiseParty.Failed, NoiseParty.push]
      | failed => exact absurd ⟨_, _, rfl⟩ (alive .responder)
    have first : Execution.Reaches (NoiseSession.step C) NoiseEvent.Forward _ _ :=
      .of_step (i := .hello draw .whole) trivial sent
    obtain ⟨writer, loop, writer', loop', reached⟩ := fromGreeted (begins.reaches laws first) greets
      (.waiting .first rfl) (waits.push bytes none) (by simp [NoiseParty.Failed]) alive'
      (more .initiator)
    rw [NoiseParty.written_push] at reached
    exact ⟨writer, loop, writer', loop', first.trans reached⟩
  | stalled _ _ _ _ dead =>
    rcases dead with dead | dead
    · exact absurd dead (alive .initiator)
    · exact absurd dead (alive .responder)
  | greeted greets encoded pending waits =>
    exact fromGreeted (.greeted greets encoded pending waits) greets pending waits
      (alive .initiator) (alive .responder) (more .initiator)
  | answered size origin pending agreed matched =>
    have answered := Joint.answered size origin pending agreed matched
    obtain ⟨writer, loop, reached⟩ :=
      answered.reaches_initiator laws succeeds rfl (alive .initiator)
    exact ⟨writer, loop, _, _, reached⟩
  | connected => exact ⟨_, _, _, _, .refl _⟩

variable (role) in
private theorem reaches_read {writer : ρ} {written : List φ} {loop loop' : SelectLoop δ φ}
    {events : List LoopEvent} (found : s.party role = .connected writer written loop)
    (ran : Execution.run (SelectLoop.step C.decoder) loop events = some loop') :
    Execution.Reaches (step C) NoiseEvent.Forward s
      (s.setParty (.connected writer written loop') role) := by
  induction events generalizing s loop with
  | nil =>
    cases ran
    rw [← found, setParty_party]
    exact .refl s
  | cons event events ih =>
    rw [Execution.run_cons, Option.bind_eq_some_iff] at ran
    obtain ⟨between, first, ran⟩ := ran
    have later := ih (party_setParty s (.connected writer written between) role) ran
    rw [setParty_setParty] at later
    refine .trans (.of_step (i := .read role event) trivial ?_) later
    simp only [step, found, first, Option.map_some]

/-- From every state in which neither end has failed and neither stream has ended, the two can go
on, without a further frame, until both are connected and each has read every frame that the
other wrote. -/
theorem completes (laws : C.Agrees sync) (succeeds : C.Succeeds) {events : List (NoiseEvent κ φ)}
    (ran : Execution.run (step C) (start C) events = some s)
    (encodes : Execution.Along (step C) (Encodes C) (start C) events)
    (alive : ∀ role, ¬(s.party role).Failed)
    (more : ∀ role, (s.party role).socket.ending = none) :
    ∃ writer loop writer' loop', Execution.Reaches (step C) NoiseEvent.Forward s
        ⟨.connected writer s.initiator.written loop, .connected writer' s.responder.written loop'⟩ ∧
      s.initiator.written.map .ok <+: loop'.returned ∧
      s.responder.written.map .ok <+: loop.returned := by
  have joint := run_joint laws ran encodes
  obtain ⟨writer, loop, writer', loop', through⟩ :=
    joint.reaches_connected laws succeeds alive more
  obtain ⟨forth, back⟩ : Link.Flows C.decoder sync ⟨writer, s.initiator.written, loop'⟩ ∧
      Link.Flows C.decoder sync ⟨writer', s.responder.written, loop⟩ := by
    cases joint.reaches laws through with
    | stalled pending => exact absurd rfl pending.not_connected
    | greeted _ _ pending => exact absurd rfl pending.not_connected
    | answered _ _ pending => exact absurd rfl pending.not_connected
    | connected forth back => exact ⟨forth, back⟩
  -- first the responder reads what is underway, then the initiator
  obtain ⟨_, reader', read', all'⟩ := forth.drain
  obtain ⟨_, reader, read, all⟩ := back.drain
  let reads (l l' : SelectLoop δ φ) : NoiseSession σ η ρ δ φ :=
    ⟨.connected writer s.initiator.written l, .connected writer' s.responder.written l'⟩
  have responderReads : Execution.Reaches (step C) NoiseEvent.Forward (reads loop loop')
      (reads loop reader') := reaches_read .responder rfl read'
  have initiatorReads : Execution.Reaches (step C) NoiseEvent.Forward (reads loop reader')
      (reads reader reader') := reaches_read .initiator rfl read
  exact ⟨writer, reader, writer', reader',
    through.trans (.trans responderReads initiatorReads), all', all⟩

end NoiseSession

end Completion

/-! ### A handshake in plain text -/

theorem plain_succeeds : plainCodec.Succeeds where
  hello := ⟨(), _, _, _, _, rfl, rfl⟩
  reply := fun _ _ _ _ => ⟨(), _, _, _, _, _, rfl, rfl⟩
  finish := fun _ _ _ => ⟨(), (), (), rfl⟩

/-- In the middle of the reply, with a frame behind it. -/
theorem completes_plain :
    ∃ (s : NoiseSession Unit PlainHandshake Unit PlainDecoder (List UInt8)) (writer : Unit)
      (loop : SelectLoop PlainDecoder (List UInt8)) (writer' : Unit)
      (loop' : SelectLoop PlainDecoder (List UInt8)),
    Execution.run (NoiseSession.step plainCodec) (NoiseSession.start plainCodec) plainOpening =
        some s ∧
      Execution.Reaches (NoiseSession.step plainCodec) NoiseEvent.Forward s
        ⟨.connected writer s.initiator.written loop,
          .connected writer' s.responder.written loop'⟩ ∧
      s.responder.written = [[0, 0, 0x1b, 0, 0, 0]] ∧
      s.responder.written.map .ok <+: loop.returned := by
  obtain ⟨s, ran, wrote, alive, more⟩ := Execution.exists_of_any
    (o := Execution.run (NoiseSession.step plainCodec) (NoiseSession.start plainCodec) plainOpening)
    (P := fun s => s.responder.written = [[0, 0, 0x1b, 0, 0, 0]] ∧
      (∀ role, ¬(s.party role).Failed) ∧ ∀ role, (s.party role).socket.ending = none)
      (by decide +kernel)
  have encodes : Execution.Along (NoiseSession.step plainCodec) (NoiseSession.Encodes plainCodec)
      (NoiseSession.start plainCodec) plainOpening := by
    decide +kernel
  obtain ⟨writer, loop, writer', loop', reached, _, read⟩ :=
    NoiseSession.completes plain_agrees plain_succeeds ran encodes alive more
  exact ⟨s, writer, loop, writer', loop', ran, reached, wrote, read⟩

end MiningPool
