import MiningPool.Handshake.Model

/-!
# Frames behind a handshake

Neither end takes a byte from the stream that is not for its handshake, and the halves that the
two return are in step.

## Main result

`NoiseSession.in_order`: an initiator that is through its handshake has met a responder that is
through its own, and from then on the frames of either end arrive at the other in order.
-/

namespace MiningPool

variable {κ σ τ η ρ δ φ : Type}

/-! ### The handshake of one end -/

section Handshake

variable {C : NoiseCodec κ σ τ η ρ δ φ} {sync : ρ → δ → Prop} {role : HandshakeRole}

inductive HandshakeRead.Awaits (C : NoiseCodec κ σ τ η ρ δ φ) (role : HandshakeRole) :
    HandshakeRead η → Prop
  | first : Awaits C role (.top (C.notInitialized role))
  | asked : Awaits C role (.top (C.asked role))
  | reading {buf} (fits : buf.length ≤ C.awaited role) :
      Awaits C role (.reading (C.asked role) (C.awaited role) buf)

theorem NoiseCodec.awaited_pos (laws : C.Agrees sync) (role : HandshakeRole) :
    0 < C.awaited role := by
  cases role with
  | initiator => exact laws.replies
  | responder => exact Nat.succ_pos 63

namespace NoiseCodec

theorem turn_first (laws : C.Agrees sync) (role : HandshakeRole) :
    C.turn role (.top (C.notInitialized role)) = some (.again (.top (C.asked role))) := by
  obtain ⟨n, asks⟩ := laws.asks role
  have answer : C.handshake.nextFrame (C.notInitialized role) =
      (.error (.missingBytes n), C.asked role) := Prod.ext asks rfl
  rw [turn, laws.silent role, if_neg (Nat.lt_irrefl 0), nextTurn, answer]

theorem turn_asked (laws : C.Agrees sync) (role : HandshakeRole) :
    C.turn role (.top (C.asked role)) =
      some (.again (.reading (C.asked role) (C.awaited role) [])) := by
  have wants : 0 < C.handshake.writableLen (C.asked role) := by
    rw [laws.awaits role]
    exact NoiseCodec.awaited_pos laws role
  rw [turn, if_pos wants, laws.awaits role]

theorem turn_full (laws : C.Agrees sync) {message : List UInt8}
    (full : message.length = C.awaited role) :
    C.turn role (.reading (C.asked role) (C.awaited role) message) = some (.payload message) := by
  have answer := laws.answers role message full
  rw [turn, if_pos full, nextTurn]
  split
  next found =>
    rw [found] at answer
    cases answer
    rfl
  next found =>
    rw [found] at answer
    cases answer
  next found =>
    rw [found] at answer
    cases answer
  next found =>
    rw [found] at answer
    cases answer

/-- The loop goes on with the bytes it has, or they are the message. -/
theorem turn_cases (laws : C.Agrees sync) {read : HandshakeRead η} {result : HandshakeTurn η}
    (awaits : read.Awaits C role) (turned : C.turn role read = some result) :
    (∃ read', result = .again read' ∧ read'.Awaits C role ∧ read'.buf = read.buf) ∨
      result = .payload read.buf ∧ read.buf.length = C.awaited role := by
  cases awaits with
  | first =>
    rw [turn_first laws] at turned
    cases turned
    exact .inl ⟨_, rfl, .asked, rfl⟩
  | asked =>
    rw [turn_asked laws] at turned
    cases turned
    exact .inl ⟨_, rfl, .reading (Nat.zero_le _), rfl⟩
  | @reading buf fits =>
    have full : buf.length = C.awaited role := (Option.ite_none_right_eq_some.mp turned).1
    rw [turn_full laws full] at turned
    cases turned
    exact .inr ⟨rfl, full⟩

end NoiseCodec

/-- An end in its handshake in `state`, to which `unread` was sent and not more, or that has
failed. -/
inductive NoiseParty.Pending (C : NoiseCodec κ σ τ η ρ δ φ) (role : HandshakeRole) (state : σ)
    (unread : List UInt8) (ending : Option Ending) : NoiseParty σ η ρ δ φ → Prop
  | waiting {incoming read} (awaits : read.Awaits C role) (here : read.buf ++ incoming = unread) :
      Pending C role state unread ending (.waiting ⟨incoming, ending⟩ state read)
  | failed {incoming error} : Pending C role state unread ending (.failed ⟨incoming, ending⟩ error)

namespace NoiseParty.Pending

variable {state : σ} {unread : List UInt8} {ending : Option Ending} {p p' : NoiseParty σ η ρ δ φ}

theorem socket_ending (pending : p.Pending C role state unread ending) :
    p.socket.ending = ending := by
  cases pending with
  | waiting => rfl
  | failed => rfl

theorem push (pending : p.Pending C role state unread ending) (bytes : List UInt8)
    (ending' : Option Ending) :
    (p.push bytes ending').Pending C role state (unread ++ bytes) ending' := by
  cases pending with
  | waiting awaits here => exact .waiting awaits (by rw [← here, List.append_assoc])
  | failed => exact .failed

theorem push_nil (pending : p.Pending C role state unread ending) (ending' : Option Ending) :
    (p.push [] ending').Pending C role state unread ending' := by
  have pushed := pending.push [] ending'
  rwa [List.append_nil] at pushed

theorem not_connected (pending : p.Pending C role state unread ending) {writer : ρ}
    {written : List φ} {loop : SelectLoop δ φ} : p ≠ .connected writer written loop := by
  cases pending with
  | waiting => simp
  | failed => simp

end NoiseParty.Pending

def NoiseParty.Failed (p : NoiseParty σ η ρ δ φ) : Prop :=
  ∃ socket error, p = .failed socket error

instance : DecidablePred (NoiseParty.Failed (σ := σ) (η := η) (ρ := ρ) (δ := δ) (φ := φ))
  | .failed socket error => isTrue ⟨socket, error, rfl⟩
  | .begin _ | .waiting .. | .connected .. => isFalse nofun

theorem NoiseParty.Failed.push {p : NoiseParty σ η ρ δ φ} (dead : p.Failed) (bytes : List UInt8)
    (ending : Option Ending) : (p.push bytes ending).Failed := by
  obtain ⟨socket, error, rfl⟩ := dead
  exact ⟨_, _, rfl⟩

/-! ### Writing -/

@[simp] theorem NoiseParty.push_self (p : NoiseParty σ η ρ δ φ) :
    p.push [] p.socket.ending = p := by
  cases p with
  | begin socket => simp [push, NoiseParty.socket]
  | waiting socket => simp [push, NoiseParty.socket]
  | failed socket => simp [push, NoiseParty.socket]
  | connected writer written loop => simp [push, NoiseParty.socket]

/-- What `write_all` puts into a stream that has not ended. -/
def WriteAll.sent (bytes : List UInt8) : WriteAll → Option (Bool × List UInt8 × Option Ending)
  | whole => some (true, bytes, none)
  | cut n ending => if n < bytes.length then some (false, bytes.take n, some ending) else none

theorem NoiseParty.deliver_open {p : NoiseParty σ η ρ δ φ} (more : p.socket.ending = none)
    (bytes : List UInt8) (write : WriteAll) :
    p.deliver bytes write = (write.sent bytes).map fun (whole, part, ending) =>
      (whole, p.push part ending) := by
  cases write with
  | whole => simp [deliver, WriteAll.sent, more]
  | cut n ending =>
    simp only [deliver, WriteAll.sent, more, if_true]
    split
    · rfl
    · rfl

theorem Link.Flows.send {l : Link ρ δ φ} (inStep : C.decoder.blocks.InStep C.encoder sync)
    (flows : l.Flows C.decoder sync) (more : l.loop.socket.ending = none) {frame : φ}
    {bytes part : List UInt8} {writer : ρ} {write : WriteAll} {whole : Bool}
    {ending : Option Ending} (encoded : C.encoder.encode l.writer frame = (.ok bytes, writer))
    (sent : write.sent bytes = some (whole, part, ending)) :
    Link.Flows C.decoder sync (Link.push
      { l with writer, written := if whole then l.written ++ [frame] else l.written }
      part ending) := by
  cases write with
  | whole =>
    cases sent
    exact flows.write inStep more encoded
  | cut n e =>
    obtain ⟨within, eq⟩ := Option.ite_none_right_eq_some.mp sent
    cases eq
    exact flows.cut inStep more encoded within e

theorem Link.Flows.new {writer : ρ} {decoder : δ} (synced : sync writer decoder)
    (ending : Option Ending) :
    Link.Flows C.decoder sync ⟨writer, [], .new decoder ⟨[], ending⟩⟩ where
  loop := ⟨rfl, .inl rfl, nofun, nofun⟩
  running := fun _ => ⟨false, [], [], rfl, rfl, fun _ => rfl, .whole (.nil decoder) synced⟩
  closed := nofun

/-- A message of the handshake leaves in full, or the end that sends it fails with a part of it
sent. -/
theorem NoiseCodec.sendHandshake_cases (laws : C.Agrees sync) {s s' : NoiseSession σ η ρ δ φ}
    {socket : Socket} {state : σ} {message : List UInt8} {write : WriteAll}
    {next : σ → NoiseParty σ η ρ δ φ} (positive : 0 < message.length)
    (sent : C.sendHandshake s role socket state message write next = some s') :
    (∃ state', C.encode state message = (.ok message, state') ∧
      s' = (s.setParty ((s.party role.peer).push message none) role.peer).setParty
        (next state') role) ∨
    ∃ part ending error, part.length < message.length ∧
      s' = (s.setParty ((s.party role.peer).push part ending) role.peer).setParty
        (.failed socket error) role := by
  have unsent (error : String) : s.setParty (.failed socket error) role =
      (s.setParty ((s.party role.peer).push [] (s.party role.peer).socket.ending)
        role.peer).setParty (.failed socket error) role := by
    cases role with
    | initiator => simp [HandshakeRole.peer, NoiseSession.party, NoiseSession.setParty]
    | responder => simp [HandshakeRole.peer, NoiseSession.party, NoiseSession.setParty]
  unfold NoiseCodec.sendHandshake at sent
  split at sent
  next e _ _ =>
    cases sent
    exact .inr ⟨[], _, _, positive, unsent _⟩
  next bytes state' encoded =>
    obtain rfl := laws.plain encoded
    obtain ⟨⟨whole, peer⟩, delivered, rfl⟩ := Option.map_eq_some_iff.mp sent
    by_cases more : (s.party role.peer).socket.ending = none
    · rw [NoiseParty.deliver_open more, Option.map_eq_some_iff] at delivered
      obtain ⟨⟨whole, part, ending⟩, put, same⟩ := delivered
      cases same
      cases write with
      | whole =>
        cases put
        exact .inl ⟨state', encoded, rfl⟩
      | cut n e =>
        obtain ⟨within, eq⟩ := Option.ite_none_right_eq_some.mp put
        cases eq
        refine .inr ⟨_, some e, _, ?_, rfl⟩
        rw [List.length_take]
        omega
    · -- the stream had ended before
      cases write with
      | whole => simp [NoiseParty.deliver, more] at delivered
      | cut n e =>
        rw [NoiseParty.deliver, if_neg more] at delivered
        cases delivered
        refine .inr ⟨[], (s.party role.peer).socket.ending, NoiseCodec.writeError role, positive,
          ?_⟩
        rw [← unsent]
        exact congrArg (fun t : NoiseSession σ η ρ δ φ =>
          t.setParty (.failed socket (NoiseCodec.writeError role)) role)
          (s.setParty_party role.peer)

/-! ### Both ends -/

/-- How far the two ends have come, and what is between them. Whatever the initiator does with the
reply, it finds the frames of the responder behind it, in step. -/
inductive NoiseSession.Joint (C : NoiseCodec κ σ τ η ρ δ φ) (sync : ρ → δ → Prop) :
    NoiseSession σ η ρ δ φ → Prop
  | begin {ending ending' r}
      (waits : r.Pending C .responder (C.initialized .responder) [] ending') :
      Joint C sync ⟨.begin ⟨[], ending⟩, r⟩
  | stalled {i r state state' unread unread' ending ending'}
      (pending : i.Pending C .initiator state unread ending) (short : unread.length < C.replySize)
      (waits : r.Pending C .responder state' unread' ending') (short' : unread'.length < 64)
      (dead : i.Failed ∨ r.Failed) : Joint C sync ⟨i, r⟩
  | greeted {i r draw hello s₀ s₁ ending ending'}
      (greets : C.step0 draw (C.initialized .initiator) = (.ok hello, s₀))
      (encoded : C.encode s₀ hello = (.ok hello, s₁))
      (pending : i.Pending C .initiator s₁ [] ending)
      (waits : r.Pending C .responder (C.initialized .responder) hello ending') :
      Joint C sync ⟨i, r⟩
  | answered {i state reply rest ending writer written loop}
      (size : reply.length = C.replySize) (origin : C.Answered state reply)
      (pending : i.Pending C .initiator state (reply ++ rest) ending)
      (agreed : ∀ draw message transport state', message.data = reply →
        C.step2 draw state message = (.ok transport, state') →
        Link.Flows C.decoder sync ⟨writer, written, .new (C.readHalf transport) ⟨rest, ending⟩⟩ ∧
          Link.Flows C.decoder sync ⟨C.writeHalf state' transport, [], loop⟩)
      (matched : ∃ writer', Link.Flows C.decoder sync ⟨writer', [], loop⟩) :
      Joint C sync ⟨i, .connected writer written loop⟩
  | connected {writer written loop writer' written' loop'}
      (forth : Link.Flows C.decoder sync ⟨writer, written, loop'⟩)
      (back : Link.Flows C.decoder sync ⟨writer', written', loop⟩) :
      Joint C sync ⟨.connected writer written loop, .connected writer' written' loop'⟩

/-! ### Steps -/

namespace NoiseSession.Joint

variable {s s' : NoiseSession σ η ρ δ φ}

/-- An end in its handshake that stays in it, or fails, having been sent what it was. -/
theorem setWaiting (joint : s.Joint C sync) {socket : Socket} {state : σ} {read : HandshakeRead η}
    {p' : NoiseParty σ η ρ δ φ} (found : s.party role = .waiting socket state read)
    (kept : ∀ {state' unread ending},
      NoiseParty.Pending C role state' unread ending (.waiting socket state read) →
        p'.Pending C role state' unread ending) : (s.setParty p' role).Joint C sync := by
  cases joint with
  | begin waits =>
    cases role with
    | initiator => cases found
    | responder =>
      cases found
      exact .begin (kept waits)
  | stalled pending short waits short' dead =>
    cases role with
    | initiator =>
      cases found
      have dead' := dead.resolve_left (by simp [NoiseParty.Failed])
      exact .stalled (kept pending) short waits short' (.inr dead')
    | responder =>
      cases found
      have dead' := dead.resolve_right (by simp [NoiseParty.Failed])
      exact .stalled pending short (kept waits) short' (.inl dead')
  | greeted greets encoded pending waits =>
    cases role with
    | initiator =>
      cases found
      exact .greeted greets encoded (kept pending) waits
    | responder =>
      cases found
      exact .greeted greets encoded pending (kept waits)
  | answered size origin pending agreed matched =>
    cases role with
    | initiator =>
      cases found
      exact .answered size origin (kept pending) agreed matched
    | responder => cases found
  | connected forth back => cases role <;> cases found

theorem setFailed (joint : s.Joint C sync) {socket : Socket} {state : σ} {read : HandshakeRead η}
    (found : s.party role = .waiting socket state read) (error : String) :
    (s.setParty (.failed socket error) role).Joint C sync := by
  refine joint.setWaiting found ?_
  intro state' unread ending pending
  cases pending with
  | waiting => exact .failed

theorem hello (laws : C.Agrees sync) (joint : s.Joint C sync) {socket : Socket} {draw : κ}
    {write : WriteAll} (found : s.initiator = .begin socket)
    (stepped : C.hello s socket draw write = some s') : s'.Joint C sync := by
  cases joint with
  | @begin ending _ _ waits =>
    cases found
    have gone (error : String) : NoiseParty.Pending C .initiator (C.initialized .initiator) []
        ending (.failed ⟨[], ending⟩ error) := .failed
    unfold NoiseCodec.hello at stepped
    split at stepped
    · cases stepped
      exact .stalled (gone _) laws.replies waits (Nat.succ_pos 63) (.inl ⟨_, _, rfl⟩)
    next message s₀ greets =>
      have size := laws.hello_length greets
      rcases NoiseCodec.sendHandshake_cases laws (by omega) stepped with
        ⟨s₁, encoded, rfl⟩ | ⟨part, ending, error, short, rfl⟩
      · exact .greeted greets encoded (.waiting .first rfl) (waits.push message none)
      · exact .stalled (gone error) laws.replies (waits.push part ending)
          (by simpa [size] using short) (.inl ⟨_, _, rfl⟩)
  | stalled pending => cases found; cases pending
  | greeted _ _ pending => cases found; cases pending
  | answered _ _ pending => cases found; cases pending
  | connected => cases found

/-- The responder has the message of the initiator. -/
theorem finishResponder (laws : C.Agrees sync) (joint : s.Joint C sync) {socket : Socket}
    {state : σ} {read : HandshakeRead η} {draw : κ} {write : WriteAll}
    (found : s.responder = .waiting socket state read) (full : read.buf.length = 64)
    (stepped : C.finish s socket state read.buf draw write .responder = some s') :
    s'.Joint C sync := by
  cases joint with
  | begin waits =>
    cases found
    cases waits with
    | waiting awaits here =>
      have length := congrArg List.length here
      rw [List.length_append, full] at length
      simp at length
  | stalled pending short waits short' =>
    cases found
    cases waits with
    | waiting awaits here =>
      rw [← here, List.length_append] at short'
      omega
  | @greeted i _ _ hello s₀ s₁ ending ending' greets encoded pending waits =>
    cases found
    cases waits with
    | @waiting incoming _ awaits here =>
      -- the message is all that was sent
      obtain ⟨rfl, rfl⟩ : read.buf = hello ∧ incoming = [] := by
        have size := laws.hello_length greets
        have length := congrArg List.length here
        rw [List.length_append, full, size] at length
        have none_ : incoming = [] := List.length_eq_zero_iff.mp (by omega)
        rw [none_, List.append_nil] at here
        exact ⟨here, none_⟩
      have stalls (error : String) (unread : List UInt8) (ending : Option Ending)
          {i' : NoiseParty σ η ρ δ φ} (pending : i'.Pending C .initiator s₁ unread ending)
          (short : unread.length < C.replySize) :
          Joint C sync ⟨i', .failed ⟨[], ending'⟩ error⟩ := by
        have gone : NoiseParty.Pending C .responder (C.initialized .responder) [] ending'
            (.failed ⟨[], ending'⟩ error) := .failed
        exact .stalled pending short gone (Nat.succ_pos 63) (.inr ⟨_, _, rfl⟩)
      simp only [NoiseCodec.finish, NoiseCodec.acceptNoise, Bytes.ofList?, full, dif_pos] at stepped
      split at stepped
      · cases stepped
        exact stalls _ [] ending pending laws.replies
      next reply transport r₁ replied =>
        have size := laws.reply_length replied
        have positive := laws.replies
        rcases NoiseCodec.sendHandshake_cases laws (by omega) stepped with
          ⟨r₂, encoded', rfl⟩ | ⟨part, ending, error, short, rfl⟩
        · have origin : C.Answered s₁ reply :=
            ⟨_, _, ⟨read.buf, full⟩, _, _, _, greets, encoded, replied⟩
          have answered : (i.push reply none).Pending C .initiator s₁ (reply ++ []) none := by
            simpa using pending.push reply none
          refine .answered size origin answered ?_ ?_
          · rintro draw' message transport' s₂ rfl finished
            obtain ⟨back, forth⟩ := laws.agreed greets encoded replied encoded' finished
            exact ⟨.new back none, .new forth ending'⟩
          · obtain ⟨writer, synced⟩ := laws.matched replied
            exact ⟨writer, .new synced ending'⟩
        · exact stalls error part ending (pending.push part ending) (by omega)
  | answered => cases found
  | connected => cases found

/-- The initiator has the reply. -/
theorem finishInitiator (laws : C.Agrees sync) (joint : s.Joint C sync) {socket : Socket}
    {state : σ} {read : HandshakeRead η} {draw : κ} {write : WriteAll}
    (found : s.initiator = .waiting socket state read) (full : read.buf.length = C.replySize)
    (stepped : C.finish s socket state read.buf draw write .initiator = some s') :
    s'.Joint C sync := by
  have positive := laws.replies
  cases joint with
  | begin => cases found
  | stalled pending short =>
    cases found
    cases pending with
    | waiting awaits here =>
      rw [← here, List.length_append] at short
      omega
  | greeted _ _ pending =>
    cases found
    cases pending with
    | waiting awaits here =>
      rw [List.append_eq_nil_iff.mp here |>.1] at full
      simp at full
      omega
  | @answered _ _ reply rest ending writer written loop size origin pending agreed matched =>
    cases found
    cases pending with
    | @waiting incoming _ awaits here =>
      obtain ⟨rfl, rfl⟩ := List.append_inj here (full.trans size.symm)
      simp only [NoiseCodec.finish, NoiseCodec.connectNoise, Bytes.ofList?, full,
        dif_pos] at stepped
      split at stepped
      · cases stepped
        exact .answered size origin .failed agreed matched
      next transport state' finished =>
        cases stepped
        obtain ⟨back, forth⟩ := agreed draw _ transport state' rfl finished
        exact .connected forth back
  | connected => cases found

theorem awaits (joint : s.Joint C sync) {socket : Socket} {state : σ} {read : HandshakeRead η}
    (found : s.party role = .waiting socket state read) : read.Awaits C role := by
  have of_pending {state' unread ending}
      (pending : (s.party role).Pending C role state' unread ending) : read.Awaits C role := by
    rw [found] at pending
    cases pending with
    | waiting awaits => exact awaits
  cases joint with
  | begin waits =>
    cases role with
    | initiator => cases found
    | responder => exact of_pending waits
  | stalled pending _ waits =>
    cases role with
    | initiator => exact of_pending pending
    | responder => exact of_pending waits
  | greeted _ _ pending waits =>
    cases role with
    | initiator => exact of_pending pending
    | responder => exact of_pending waits
  | answered _ _ pending =>
    cases role with
    | initiator => exact of_pending pending
    | responder => cases found
  | connected => cases role <;> cases found

theorem turn (laws : C.Agrees sync) (joint : s.Joint C sync) {draw : κ} {write : WriteAll}
    (stepped : s.step C (.turn role draw write) = some s') : s'.Joint C sync := by
  simp only [NoiseSession.step] at stepped
  split at stepped
  next socket state read found =>
    cases turned : C.turn role read with
    | none => simp [turned] at stepped
    | some result =>
      rw [turned] at stepped
      rcases NoiseCodec.turn_cases laws (joint.awaits found) turned with
        ⟨read', rfl, awaits', same⟩ | ⟨rfl, full⟩
      · cases stepped
        refine joint.setWaiting found ?_
        intro state' unread ending pending
        cases pending with
        | waiting _ here => exact .waiting awaits' (by rw [same, here])
      · cases role with
        | initiator => exact joint.finishInitiator laws found full stepped
        | responder => exact joint.finishResponder laws found full stepped
  · cases stepped

theorem receive (joint : s.Joint C sync) {n : Nat}
    (stepped : s.step C (.receive role n) = some s') : s'.Joint C sync := by
  simp only [NoiseSession.step] at stepped
  split at stepped
  next socket state decoder expected buf found =>
    obtain ⟨⟨_, fits, delivered⟩, eq⟩ := Option.ite_none_right_eq_some.mp stepped
    cases eq
    refine joint.setWaiting found ?_
    intro state' unread ending pending
    cases pending with
    | @waiting incoming _ awaits here =>
      cases awaits with
      | reading within =>
        refine .waiting (.reading ?_) ?_
        · rw [List.length_append, List.length_take_of_le delivered]
          omega
        · -- the bytes only move from the stream to the buffer
          rw [← here]
          simp [HandshakeRead.buf]
  · cases stepped

theorem close (joint : s.Joint C sync) {ending : Ending}
    (stepped : s.step C (.close role ending) = some s') : s'.Joint C sync := by
  simp only [NoiseSession.step] at stepped
  obtain ⟨more, eq⟩ := Option.ite_none_right_eq_some.mp stepped
  cases eq
  cases joint with
  | begin waits =>
    cases role with
    | initiator => exact .begin (waits.push_nil _)
    | responder => exact .begin waits
  | stalled pending short waits short' dead =>
    cases role with
    | initiator =>
      exact .stalled pending short (waits.push_nil _) short' (dead.imp_right (·.push _ _))
    | responder =>
      exact .stalled (pending.push_nil _) short waits short' (dead.imp_left (·.push _ _))
  | greeted greets encoded pending waits =>
    cases role with
    | initiator => exact .greeted greets encoded pending (waits.push_nil _)
    | responder => exact .greeted greets encoded (pending.push_nil _) waits
  | answered size origin pending agreed matched =>
    cases role with
    | initiator =>
      refine .answered size origin pending ?_ ?_
      · intro draw message transport state' same finished
        obtain ⟨back, forth⟩ := agreed draw message transport state' same finished
        exact ⟨back, forth.close more ending⟩
      · obtain ⟨writer, flows⟩ := matched
        exact ⟨writer, flows.close more ending⟩
    | responder =>
      refine .answered size origin (pending.push_nil _) ?_ matched
      intro draw message transport state' same finished
      obtain ⟨back, forth⟩ := agreed draw message transport state' same finished
      have closed := back.close (pending.socket_ending.symm.trans more) ending
      simp only [Link.push, SelectLoop.new, List.append_nil] at closed
      exact ⟨closed, forth⟩
  | connected forth back =>
    cases role with
    | initiator => exact .connected (forth.close more ending) back
    | responder => exact .connected forth (back.close more ending)

/-- An end that is through its handshake does something that keeps both streams in order: its own,
whatever reads it, and the other, whatever writes it. -/
theorem setConnected (joint : s.Joint C sync) {writer writer' : ρ} {written written' : List φ}
    {loop loop' : SelectLoop δ φ} {part : List UInt8} {ending' : Option Ending}
    (found : s.party role = .connected writer written loop)
    (out : ∀ reader, reader.socket.ending = (s.party role.peer).socket.ending →
      Link.Flows C.decoder sync ⟨writer, written, reader⟩ →
        Link.Flows C.decoder sync (Link.push ⟨writer', written', reader⟩ part ending'))
    (back : ∀ w ws, Link.Flows C.decoder sync ⟨w, ws, loop⟩ →
      Link.Flows C.decoder sync ⟨w, ws, loop'⟩) :
    ((s.setParty ((s.party role.peer).push part ending') role.peer).setParty
      (.connected writer' written' loop') role).Joint C sync := by
  cases joint with
  | begin waits =>
    cases role with
    | initiator => cases found
    | responder => exact absurd found waits.not_connected
  | stalled pending _ waits =>
    cases role with
    | initiator => exact absurd found pending.not_connected
    | responder => exact absurd found waits.not_connected
  | greeted _ _ pending waits =>
    cases role with
    | initiator => exact absurd found pending.not_connected
    | responder => exact absurd found waits.not_connected
  | answered size origin pending agreed matched =>
    cases role with
    | initiator => exact absurd found pending.not_connected
    | responder =>
      cases found
      have put := pending.push part ending'
      rw [List.append_assoc] at put
      refine .answered size origin put ?_ ?_
      · intro draw message transport state' same finished
        obtain ⟨behind, ahead⟩ := agreed draw message transport state' same finished
        exact ⟨out _ pending.socket_ending.symm behind, back _ _ ahead⟩
      · obtain ⟨w, flows⟩ := matched
        exact ⟨w, back _ _ flows⟩
  | connected there here =>
    cases role with
    | initiator =>
      cases found
      exact .connected (out _ rfl there) (back _ _ here)
    | responder =>
      cases found
      exact .connected (back _ _ there) (out _ rfl here)

theorem write (laws : C.Agrees sync) (joint : s.Joint C sync) {frame : φ} {write : WriteAll}
    (encodes : s.Encodes C (.write role frame write))
    (stepped : s.step C (.write role frame write) = some s') : s'.Joint C sync := by
  simp only [NoiseSession.step] at stepped
  split at stepped
  next writer written loop found =>
    obtain ⟨more, stepped⟩ := Option.ite_none_right_eq_some.mp stepped
    simp only [NoiseSession.Encodes, found] at encodes
    split at stepped
    next e writer' failed =>
      rw [failed] at encodes
      cases encodes
    next bytes writer' encoded =>
      rw [NoiseParty.deliver_open more, Option.map_map, Option.map_eq_some_iff] at stepped
      obtain ⟨⟨whole, part, ending⟩, sent, rfl⟩ := stepped
      refine joint.setConnected found ?_ (fun _ _ flows => flows)
      intro reader same flows
      exact flows.send laws.inStep (same.trans more) encoded sent
  · cases stepped

theorem read (laws : C.Agrees sync) (joint : s.Joint C sync) {event : LoopEvent}
    (stepped : s.step C (.read role event) = some s') : s'.Joint C sync := by
  simp only [NoiseSession.step] at stepped
  split at stepped
  next writer written loop found =>
    obtain ⟨loop', moved, rfl⟩ := Option.map_eq_some_iff.mp stepped
    have moves : ((s.setParty ((s.party role.peer).push [] (s.party role.peer).socket.ending)
        role.peer).setParty (.connected writer written loop') role).Joint C sync := by
      refine joint.setConnected found ?_ ?_
      · rintro reader same flows
        rw [← same]
        simp only [Link.push, List.append_nil]
        exact flows
      · intro w ws flows
        exact flows.read laws.inStep moved
    rwa [NoiseParty.push_self, setParty_party] at moves
  · cases stepped

theorem step (laws : C.Agrees sync) (joint : s.Joint C sync) {event : NoiseEvent κ φ}
    (encodes : s.Encodes C event) (stepped : s.step C event = some s') : s'.Joint C sync := by
  cases event with
  | hello draw write =>
    simp only [NoiseSession.step] at stepped
    split at stepped
    next socket found => exact joint.hello laws found stepped
    · cases stepped
  | turn role draw write => exact joint.turn laws stepped
  | receive role n => exact joint.receive stepped
  | readFails role =>
    simp only [NoiseSession.step] at stepped
    split at stepped
    next socket state decoder expected buf found =>
      obtain ⟨_, eq⟩ := Option.ite_none_right_eq_some.mp stepped
      cases eq
      exact joint.setFailed found _
    · cases stepped
  | timeout =>
    simp only [NoiseSession.step] at stepped
    split at stepped
    next socket state decoder expected buf found =>
      obtain ⟨_, eq⟩ := Option.ite_none_right_eq_some.mp stepped
      cases eq
      have found' : s.party .responder = _ := found
      exact joint.setFailed found' _
    · cases stepped
  | close role ending => exact joint.close stepped
  | write role frame write => exact joint.write laws encodes stepped
  | read role event => exact joint.read laws stepped

end NoiseSession.Joint

/-! ### Runs -/

namespace NoiseSession

variable {s : NoiseSession σ η ρ δ φ} {events : List (NoiseEvent κ φ)}

theorem run_joint (laws : C.Agrees sync)
    (ran : Execution.run (step C) (start C) events = some s)
    (encodes : Execution.Along (step C) (Encodes C) (start C) events) : s.Joint C sync := by
  refine Execution.run_invariant_along (fun s => s.Joint C sync)
    (fun s event s' joint encodes stepped => joint.step laws encodes stepped) ?_ encodes ran
  exact .begin (.waiting .first rfl)

/-- However the bytes are cut into reads, wherever a read is cancelled, a step of the handshake
fails or a stream ends: an initiator that is through its handshake has met a responder that is
through its own, and then each end reads the frames that the other wrote, in order and each one
once. Until then the responder has read none. -/
theorem in_order (laws : C.Agrees sync)
    (ran : Execution.run (step C) (start C) events = some s)
    (encodes : Execution.Along (step C) (Encodes C) (start C) events) :
    (∀ writer written loop, s.initiator = .connected writer written loop →
      ∃ writer' written' loop', s.responder = .connected writer' written' loop' ∧
        Link.InOrder ⟨writer, written, loop'⟩ ∧ Link.InOrder ⟨writer', written', loop⟩) ∧
    ∀ writer written loop, s.responder = .connected writer written loop →
      (∃ writer' written' loop', s.initiator = .connected writer' written' loop') ∨
        loop.control ≠ .panicked ∧ ∀ frame, .ok frame ∉ loop.returned := by
  cases run_joint laws ran encodes with
  | begin waits =>
    exact ⟨nofun, fun _ _ _ found => absurd found waits.not_connected⟩
  | stalled pending _ waits =>
    exact ⟨fun _ _ _ found => absurd found pending.not_connected,
      fun _ _ _ found => absurd found waits.not_connected⟩
  | greeted _ _ pending waits =>
    exact ⟨fun _ _ _ found => absurd found pending.not_connected,
      fun _ _ _ found => absurd found waits.not_connected⟩
  | @answered _ _ _ _ _ _ _ loop _ _ pending _ matched =>
    refine ⟨fun _ _ _ found => absurd found pending.not_connected, ?_⟩
    rintro writer written _ found
    cases found
    obtain ⟨writer', flows⟩ := matched
    refine .inr ⟨flows.inOrder.sound, ?_⟩
    intro frame returned
    -- nothing was written to it
    by_cases closed : loop.control = .closed
    · obtain ⟨e, _, all⟩ := flows.inOrder.closed closed
      have all' : loop.returned = [.error e.error] := all
      rw [all'] at returned
      simp at returned
    · obtain ⟨waiting, all, _⟩ := flows.inOrder.running closed
      have none_ : loop.returned = [] := (List.append_eq_nil_iff.mp all.symm).1
      rw [none_] at returned
      cases returned
  | connected forth back =>
    constructor
    · rintro writer written loop found
      cases found
      exact ⟨_, _, _, rfl, forth.inOrder, back.inOrder⟩
    · exact fun _ _ _ _ => .inl ⟨_, _, _, rfl⟩

end NoiseSession

end Handshake

/-! ### A handshake in plain text -/

/-- The decoder of `codec_sv2` before the session has its keys. -/
structure PlainHandshake where
  expected : Nat
  missing : Nat
  noiseBuffer : List UInt8

/-- Messages of the right lengths that nobody checks, and frames in plain text. -/
def plainCodec : NoiseCodec Unit Unit Unit PlainHandshake Unit PlainDecoder (List UInt8) where
  initialized _ := ()
  notInitialized
    | .responder => ⟨64, 0, []⟩
    | .initiator => ⟨234, 0, []⟩
  handshake :=
    { writableLen := fun d => d.missing
      write := fun d bytes => { d with noiseBuffer := d.noiseBuffer ++ bytes }
      nextFrame := fun d =>
        let hint := d.expected - d.noiseBuffer.length
        if hint ≠ 0 then (.error (.missingBytes hint), { d with missing := hint })
        else (.ok (.handShake d.noiseBuffer), ⟨d.expected, 0, []⟩) }
  replySize := 234
  step0 _ _ := (.ok (List.replicate 64 1), ())
  step1 _ _ _ := (.ok (List.replicate 234 2, ()), ())
  step2 _ _ _ := (.ok (), ())
  encode _ message := (.ok message, ())
  writeHalf _ _ := ()
  readHalf _ := ⟨0, [], none⟩
  encoder := plainEncoder
  decoder := plainDecoder

theorem plain_agrees : plainCodec.Agrees PlainSync where
  silent role := by cases role <;> rfl
  asks role := by cases role <;> exact ⟨_, rfl⟩
  awaits role := by cases role <;> rfl
  answers role bytes size := by
    cases role with
    | initiator =>
      have size' : bytes.length = 234 := size
      simp [plainCodec, NoiseCodec.asked, size']
    | responder =>
      have size' : bytes.length = 64 := size
      simp [plainCodec, NoiseCodec.asked, size']
  replies := by decide
  hello_length := by
    rintro draw hello state sent
    cases sent
    exact List.length_replicate
  reply_length := by
    rintro draw state hello reply transport state' replied
    cases replied
    exact List.length_replicate
  plain := by
    rintro state message bytes state' encoded
    cases encoded
    rfl
  agreed := by
    intros
    exact ⟨.inl rfl, .inl rfl⟩
  matched := by
    intros
    exact ⟨(), .inl rfl⟩
  inStep := plain_inStep

/-- The message of the initiator comes in two pieces, and the responder writes a frame before the
initiator has read the reply. -/
def plainOpening : List (NoiseEvent Unit (List UInt8)) :=
  [.turn .responder () .whole, .hello () .whole, .turn .responder () .whole, .receive .responder 40,
    .receive .responder 24, .turn .responder () .whole,
    .write .responder [0, 0, 0x1b, 0, 0, 0] .whole, .turn .initiator () .whole,
    .turn .initiator () .whole, .receive .initiator 200]

/-- The reply is there, and each end reads what the other wrote. -/
def plainSession : List (NoiseEvent Unit (List UInt8)) :=
  plainOpening ++ [.receive .initiator 34, .turn .initiator () .whole,
    .write .initiator [0, 0, 0x1a, 2, 0, 0, 7, 8] .whole, .read .initiator .call,
    .read .initiator .wake, .read .initiator (.read 22), .read .initiator .wake]

private theorem connected_of_written {p : NoiseParty σ η ρ δ φ} (wrote : p.written ≠ []) :
    ∃ writer loop, p = .connected writer p.written loop := by
  cases p with
  | connected writer written loop => exact ⟨writer, loop, rfl⟩
  | _ => exact absurd rfl wrote

theorem in_order_plain : ∃ s : NoiseSession Unit PlainHandshake Unit PlainDecoder (List UInt8),
    Execution.run (NoiseSession.step plainCodec) (NoiseSession.start plainCodec) plainSession =
        some s ∧
      s.initiator.written = [[0, 0, 0x1a, 2, 0, 0, 7, 8]] ∧
      s.responder.written = [[0, 0, 0x1b, 0, 0, 0]] ∧
      ∃ writer written loop writer' written' loop', s.initiator = .connected writer written loop ∧
        s.responder = .connected writer' written' loop' ∧
        Link.InOrder ⟨writer, written, loop'⟩ ∧ Link.InOrder ⟨writer', written', loop⟩ := by
  obtain ⟨s, ran, forth, back⟩ := Execution.exists_of_any
    (o := Execution.run (NoiseSession.step plainCodec) (NoiseSession.start plainCodec) plainSession)
    (P := fun s => s.initiator.written = [[0, 0, 0x1a, 2, 0, 0, 7, 8]] ∧
      s.responder.written = [[0, 0, 0x1b, 0, 0, 0]]) (by decide +kernel)
  have encodes : Execution.Along (NoiseSession.step plainCodec) (NoiseSession.Encodes plainCodec)
      (NoiseSession.start plainCodec) plainSession := by
    decide +kernel
  obtain ⟨writer, loop, connected⟩ := connected_of_written (p := s.initiator) (by simp [forth])
  obtain ⟨both, _⟩ := NoiseSession.in_order plain_agrees ran encodes
  obtain ⟨writer', written', loop', connected', ordered, ordered'⟩ := both _ _ _ connected
  exact ⟨s, ran, forth, back, _, _, _, _, _, _, connected, connected', ordered, ordered'⟩

end MiningPool
