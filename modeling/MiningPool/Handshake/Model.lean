import MiningPool.Library.Bytes
import MiningPool.Transport

/-!
# The handshake

`accept_noise` at one end of a TCP stream and `connect_noise` at the other, and what the halves
they return do with the stream afterwards. The Noise steps and the codec are those of `noise_sv2`
and `codec_sv2` and are left open; what is required of them is `NoiseCodec.Agrees`.
-/

namespace MiningPool

variable {κ σ τ η ρ δ φ : Type}

/-! ### Both handshakes -/

inductive HandshakeRole
  | initiator
  | responder
deriving DecidableEq

namespace HandshakeRole

def peer : HandshakeRole → HandshakeRole
  | initiator => responder
  | responder => initiator

theorem forall_iff {P : HandshakeRole → Prop} :
    (∀ role, P role) ↔ P .initiator ∧ P .responder := by
  constructor
  · intro all
    exact ⟨all _, all _⟩
  · rintro ⟨first, second⟩ role
    cases role with
    | initiator => exact first
    | responder => exact second

instance {P : HandshakeRole → Prop} [DecidablePred P] : Decidable (∀ role, P role) :=
  decidable_of_iff' _ forall_iff

end HandshakeRole

/-- What the decoder makes of bytes before the session has its keys. -/
inductive NoiseFrame
  | handShake (payload : List UInt8)
  | sv2

/-- The parts that come from `noise_sv2` and `codec_sv2`. A `κ` is what a step draws or reads off
the clock; a `σ` is the state of a handshake with the encoder for its messages, a `τ` that of the
session it leads to, and an `η` the decoder of a handshake with its own state. -/
structure NoiseCodec (κ σ τ η ρ δ φ : Type) where
  /-- `State::initialized(role)` and `Encoder::new()` -/
  initialized : HandshakeRole → σ
  /-- `State::not_initialized(role)` and `Decoder::new()` -/
  notInitialized : HandshakeRole → η
  handshake : NoiseDecoder η NoiseFrame
  /-- `INITIATOR_EXPECTED_HANDSHAKE_MESSAGE_SIZE` -/
  replySize : Nat
  step0 : κ → σ → Except String (List UInt8) × σ
  step1 : κ → σ → Bytes 64 → Except String (List UInt8 × τ) × σ
  step2 : κ → σ → Bytes replySize → Except String τ × σ
  /-- The encoder on a message of the handshake. -/
  encode : σ → List UInt8 → Except String (List UInt8) × σ
  /-- The halves that a handshake returns: the encoder goes on, the decoder is new. -/
  writeHalf : σ → τ → ρ
  readHalf : τ → δ
  encoder : NoiseEncoder ρ φ
  decoder : NoiseDecoder δ φ

/-- The loop that reads the message of the peer. -/
inductive HandshakeRead (η : Type)
  /-- At its top. -/
  | top (decoder : η)
  /-- In `read_exact`, which has some of the bytes. -/
  | reading (decoder : η) (expected : Nat) (buf : List UInt8)

def HandshakeRead.buf : HandshakeRead η → List UInt8
  | top _ => []
  | reading _ _ buf => buf

inductive HandshakeTurn (η : Type)
  | again (read : HandshakeRead η)
  | payload (payload : List UInt8)
  | failed (error : String)

/-- One end of the stream, with what it was sent and did not read. `written` are the frames of
the writes that returned `Ok`. -/
inductive NoiseParty (σ η ρ δ φ : Type)
  /-- An initiator that was just called. -/
  | begin (socket : Socket)
  | waiting (socket : Socket) (state : σ) (read : HandshakeRead η)
  | failed (socket : Socket) (error : String)
  | connected (writer : ρ) (written : List φ) (loop : SelectLoop δ φ)

structure NoiseSession (σ η ρ δ φ : Type) where
  initiator : NoiseParty σ η ρ δ φ
  responder : NoiseParty σ η ρ δ φ

/-- How `write_all` ends. -/
inductive WriteAll
  | whole
  /-- The stream breaks after `n` bytes. -/
  | cut (n : Nat) (ending : Ending)

inductive NoiseEvent (κ φ : Type)
  /-- `connect_noise` is called, and writes its first message. -/
  | hello (draw : κ) (write : WriteAll)
  /-- The handshake of an end goes on to where it next waits for bytes. -/
  | turn (role : HandshakeRole) (draw : κ) (write : WriteAll)
  /-- `read_exact` gets some bytes. -/
  | receive (role : HandshakeRole) (n : Nat)
  | readFails (role : HandshakeRole)
  /-- The responder has waited for too long. -/
  | timeout
  /-- The stream from an end to its peer ends, between two writes. -/
  | close (role : HandshakeRole) (ending : Ending)
  /-- An end that is through its handshake writes a frame, or reads. -/
  | write (role : HandshakeRole) (frame : φ) (write : WriteAll)
  | read (role : HandshakeRole) (event : LoopEvent)

namespace NoiseParty

def socket : NoiseParty σ η ρ δ φ → Socket
  | begin socket => socket
  | waiting socket _ _ => socket
  | failed socket _ => socket
  | connected _ _ loop => loop.socket

def written : NoiseParty σ η ρ δ φ → List φ
  | connected _ written _ => written
  | _ => []

/-- More bytes on their way to an end, and maybe the end of the stream. -/
def push (bytes : List UInt8) (ending : Option Ending) : NoiseParty σ η ρ δ φ → NoiseParty σ η ρ δ φ
  | begin socket => begin ⟨socket.incoming ++ bytes, ending⟩
  | waiting socket state read => waiting ⟨socket.incoming ++ bytes, ending⟩ state read
  | failed socket error => failed ⟨socket.incoming ++ bytes, ending⟩ error
  | connected writer written loop =>
    connected writer written { loop with socket := ⟨loop.socket.incoming ++ bytes, ending⟩ }

theorem written_push (p : NoiseParty σ η ρ δ φ) (bytes : List UInt8) (ending : Option Ending) :
    (p.push bytes ending).written = p.written := by
  cases p <;> rfl

/-- `write_all` into the stream that this end reads: whether it returns `Ok`. -/
def deliver (p : NoiseParty σ η ρ δ φ) (bytes : List UInt8) :
    WriteAll → Option (Bool × NoiseParty σ η ρ δ φ)
  | .whole => if p.socket.ending = none then some (true, p.push bytes none) else none
  | .cut n ending =>
    if p.socket.ending = none then
      if n < bytes.length then some (false, p.push (bytes.take n) (some ending)) else none
    -- the stream was broken before
    else some (false, p)

end NoiseParty

namespace NoiseSession

def party (s : NoiseSession σ η ρ δ φ) : HandshakeRole → NoiseParty σ η ρ δ φ
  | .initiator => s.initiator
  | .responder => s.responder

def setParty (s : NoiseSession σ η ρ δ φ) (p : NoiseParty σ η ρ δ φ) :
    HandshakeRole → NoiseSession σ η ρ δ φ
  | .initiator => { s with initiator := p }
  | .responder => { s with responder := p }

@[simp] theorem party_setParty (s : NoiseSession σ η ρ δ φ) (p : NoiseParty σ η ρ δ φ)
    (role : HandshakeRole) : (s.setParty p role).party role = p := by
  cases role with
  | initiator => rfl
  | responder => rfl

@[simp] theorem setParty_setParty (s : NoiseSession σ η ρ δ φ) (p p' : NoiseParty σ η ρ δ φ)
    (role : HandshakeRole) : (s.setParty p role).setParty p' role = s.setParty p' role := by
  cases role with
  | initiator => rfl
  | responder => rfl

@[simp] theorem setParty_party (s : NoiseSession σ η ρ δ φ) (role : HandshakeRole) :
    s.setParty (s.party role) role = s := by
  cases role with
  | initiator => rfl
  | responder => rfl

end NoiseSession

namespace NoiseCodec

variable (C : NoiseCodec κ σ τ η ρ δ φ)

/-! ### `accept_noise` and `connect_noise` -/

/-- The texts in which the two functions differ. -/
def readError : HandshakeRole → String
  | .responder => "handshake read"
  | .initiator => "read Noise handshake reply"

def decodeError : HandshakeRole → String
  | .responder => "handshake frame decode: "
  | .initiator => "handshake reply decode: "

def encodeError : HandshakeRole → String
  | .responder => "Noise encode handshake reply: "
  | .initiator => "Noise encode step0: "

def writeError : HandshakeRole → String
  | .responder => "write handshake reply"
  | .initiator => "write Noise step0"

/-- The answer of the decoder, at the end of the loop's body. -/
def nextTurn (role : HandshakeRole) (decoder : η) : HandshakeTurn η :=
  match C.handshake.nextFrame decoder with
  | (.ok (.handShake payload), _) => .payload payload
  | (.ok .sv2, _) => .failed "expected HandShake frame, got Sv2 frame"
  | (.error (.missingBytes _), decoder) => .again (.top decoder)
  | (.error (.other e), _) => .failed (decodeError role ++ e)

/-- The loop up to where it next waits, unless it still does. -/
def turn (role : HandshakeRole) : HandshakeRead η → Option (HandshakeTurn η)
  | .top decoder =>
    let expected := C.handshake.writableLen decoder
    if 0 < expected then some (.again (.reading decoder expected []))
    else some (C.nextTurn role decoder)
  | .reading decoder expected buf =>
    if buf.length = expected then some (C.nextTurn role (C.handshake.write decoder buf)) else none

/-- A message of the handshake is encoded and written; what follows a write that returns `Ok` is
`next`. -/
def sendHandshake (s : NoiseSession σ η ρ δ φ) (role : HandshakeRole) (socket : Socket) (state : σ)
    (message : List UInt8) (write : WriteAll) (next : σ → NoiseParty σ η ρ δ φ) :
    Option (NoiseSession σ η ρ δ φ) :=
  match C.encode state message with
  | (.error e, _) => some (s.setParty (.failed socket (encodeError role ++ e)) role)
  | (.ok bytes, state) =>
    ((s.party role.peer).deliver bytes write).map fun (whole, peer) =>
      let this := if whole then next state else .failed socket (writeError role)
      (s.setParty peer role.peer).setParty this role

/-- `accept_noise` from its loop on. -/
def acceptNoise (s : NoiseSession σ η ρ δ φ) (socket : Socket) (state : σ) (payload : List UInt8)
    (draw : κ) (write : WriteAll) : Option (NoiseSession σ η ρ δ φ) :=
  match Bytes.ofList? 64 payload with
  | none => some (s.setParty (.failed socket "wrong handshake payload size") .responder)
  | some payload =>
    match C.step1 draw state payload with
    | (.error e, _) => some (s.setParty (.failed socket ("Noise step_1 error: " ++ e)) .responder)
    | (.ok (reply, transport), state) =>
      C.sendHandshake s .responder socket state reply write fun state =>
        .connected (C.writeHalf state transport) [] (.new (C.readHalf transport) socket)

/-- `connect_noise` from its loop on. -/
def connectNoise (s : NoiseSession σ η ρ δ φ) (socket : Socket) (state : σ) (payload : List UInt8)
    (draw : κ) : Option (NoiseSession σ η ρ δ φ) :=
  match Bytes.ofList? C.replySize payload with
  | none => some (s.setParty (.failed socket "wrong handshake reply size") .initiator)
  | some payload =>
    match C.step2 draw state payload with
    | (.error e, _) => some (s.setParty (.failed socket ("Noise step_2 error: " ++ e)) .initiator)
    | (.ok transport, state) =>
      let loop := .new (C.readHalf transport) socket
      some (s.setParty (.connected (C.writeHalf state transport) [] loop) .initiator)

def finish (s : NoiseSession σ η ρ δ φ) (socket : Socket) (state : σ) (payload : List UInt8)
    (draw : κ) (write : WriteAll) : HandshakeRole → Option (NoiseSession σ η ρ δ φ)
  | .responder => C.acceptNoise s socket state payload draw write
  | .initiator => C.connectNoise s socket state payload draw

/-- `connect_noise` up to its loop. -/
def hello (s : NoiseSession σ η ρ δ φ) (socket : Socket) (draw : κ) (write : WriteAll) :
    Option (NoiseSession σ η ρ δ φ) :=
  match C.step0 draw (C.initialized .initiator) with
  | (.error e, _) => some (s.setParty (.failed socket ("Noise step_0 error: " ++ e)) .initiator)
  | (.ok message, state) =>
    C.sendHandshake s .initiator socket state message write fun state =>
      .waiting socket state (.top (C.notInitialized .initiator))

end NoiseCodec

namespace NoiseSession

variable (C : NoiseCodec κ σ τ η ρ δ φ)

/-- A stream with an end at either side, before `connect_noise` is called. -/
def start : NoiseSession σ η ρ δ φ where
  initiator := .begin ⟨[], none⟩
  responder := .waiting ⟨[], none⟩ (C.initialized .responder) (.top (C.notInitialized .responder))

def step (s : NoiseSession σ η ρ δ φ) : NoiseEvent κ φ → Option (NoiseSession σ η ρ δ φ)
  | .hello draw write =>
    match s.initiator with
    | .begin socket => C.hello s socket draw write
    | _ => none
  | .turn role draw write =>
    match s.party role with
    | .waiting socket state read =>
      match C.turn role read with
      | none => none
      | some (.again read) => some (s.setParty (.waiting socket state read) role)
      | some (.failed e) => some (s.setParty (.failed socket e) role)
      | some (.payload payload) => C.finish s socket state payload draw write role
    | _ => none
  | .receive role n =>
    match s.party role with
    | .waiting socket state (.reading decoder expected buf) =>
      if 0 < n ∧ n ≤ expected - buf.length ∧ n ≤ socket.incoming.length then
        let rest := { socket with incoming := socket.incoming.drop n }
        let read := .reading decoder expected (buf ++ socket.incoming.take n)
        some (s.setParty (.waiting rest state read) role)
      else none
    | _ => none
  | .readFails role =>
    match s.party role with
    | .waiting socket _ (.reading _ expected buf) =>
      if buf.length < expected ∧ socket.incoming = [] ∧ socket.ending ≠ none then
        some (s.setParty (.failed socket (NoiseCodec.readError role)) role)
      else none
    | _ => none
  | .timeout =>
    match s.responder with
    | .waiting socket _ (.reading _ expected buf) =>
      if buf.length < expected then
        some (s.setParty (.failed socket "handshake timeout") .responder)
      else none
    | _ => none
  | .close role ending =>
    if (s.party role.peer).socket.ending = none then
      some (s.setParty ((s.party role.peer).push [] (some ending)) role.peer)
    else none
  | .write role frame write =>
    match s.party role with
    | .connected writer written loop =>
      if (s.party role.peer).socket.ending = none then
        match C.encoder.encode writer frame with
        | (.error _, writer) => some (s.setParty (.connected writer written loop) role)
        | (.ok bytes, writer) =>
          ((s.party role.peer).deliver bytes write).map fun (whole, peer) =>
            let written := if whole then written ++ [frame] else written
            (s.setParty peer role.peer).setParty (.connected writer written loop) role
      else none
    | _ => none
  | .read role event =>
    match s.party role with
    | .connected writer written loop =>
      (loop.step C.decoder event).map fun loop =>
        s.setParty (.connected writer written loop) role
    | _ => none

/-- The encoder takes the frame, if the event is a write. -/
def Encodes (s : NoiseSession σ η ρ δ φ) : NoiseEvent κ φ → Prop
  | .write role frame _ =>
    match s.party role with
    | .connected writer _ _ => (C.encoder.encode writer frame).1.isOk = true
    | _ => True
  | _ => True

instance (s : NoiseSession σ η ρ δ φ) : DecidablePred (s.Encodes C)
  | .write role frame write =>
    match found : s.party role with
    | .connected writer _ _ =>
      decidable_of_iff ((C.encoder.encode writer frame).1.isOk = true) (by simp [Encodes, found])
    | .begin _ | .waiting .. | .failed .. => isTrue (by simp [Encodes, found])
  | .hello .. | .turn .. | .receive .. | .readFails _ | .timeout | .close .. | .read .. =>
    isTrue trivial

end NoiseSession

/-! ### What is required of the codec -/

namespace NoiseCodec

variable (C : NoiseCodec κ σ τ η ρ δ φ)

/-- The length of the message that an end waits for. -/
def awaited : HandshakeRole → Nat
  | .responder => 64
  | .initiator => C.replySize

/-- The decoder of a handshake after its first call. -/
def asked (role : HandshakeRole) : η := (C.handshake.nextFrame (C.notInitialized role)).2

/-- The decoder of a handshake wants nothing at first, and then the message of the peer, which is
what it answers. The messages have these lengths and are not encrypted. Two ends that are through
one handshake are in step in both directions, and a responder that is through its own is in step
with some writer in any case. -/
structure Agrees (sync : ρ → δ → Prop) : Prop where
  silent : ∀ role, C.handshake.writableLen (C.notInitialized role) = 0
  asks : ∀ role, ∃ n, (C.handshake.nextFrame (C.notInitialized role)).1 = .error (.missingBytes n)
  awaits : ∀ role, C.handshake.writableLen (C.asked role) = C.awaited role
  answers : ∀ role bytes, bytes.length = C.awaited role →
    (C.handshake.nextFrame (C.handshake.write (C.asked role) bytes)).1 = .ok (.handShake bytes)
  replies : 0 < C.replySize
  hello_length : ∀ {draw hello state},
    C.step0 draw (C.initialized .initiator) = (.ok hello, state) → hello.length = 64
  reply_length : ∀ {draw state hello reply transport state'},
    C.step1 draw state hello = (.ok (reply, transport), state') → reply.length = C.replySize
  plain : ∀ {state message bytes state'}, C.encode state message = (.ok bytes, state') →
    bytes = message
  agreed : ∀ {draw₀ draw₁ draw₂ hello s₀ s₁ r₁ r₂ reply transport s₂ transport'},
    C.step0 draw₀ (C.initialized .initiator) = (.ok hello.data, s₀) →
    C.encode s₀ hello.data = (.ok hello.data, s₁) →
    C.step1 draw₁ (C.initialized .responder) hello = (.ok (reply.data, transport), r₁) →
    C.encode r₁ reply.data = (.ok reply.data, r₂) →
    C.step2 draw₂ s₁ reply = (.ok transport', s₂) →
    sync (C.writeHalf r₂ transport) (C.readHalf transport') ∧
      sync (C.writeHalf s₂ transport') (C.readHalf transport)
  matched : ∀ {draw hello reply transport r₁},
    C.step1 draw (C.initialized .responder) hello = (.ok (reply, transport), r₁) →
    ∃ writer, sync writer (C.readHalf transport)
  inStep : C.decoder.blocks.InStep C.encoder sync

/-- The initiator, now in `state`, sent a message that the responder answered with `reply`. -/
def Answered (state : σ) (reply : List UInt8) : Prop :=
  ∃ draw₀ draw₁ hello s₀ r₁ transport,
    C.step0 draw₀ (C.initialized .initiator) = (.ok hello.data, s₀) ∧
    C.encode s₀ hello.data = (.ok hello.data, state) ∧
    C.step1 draw₁ (C.initialized .responder) hello = (.ok (reply, transport), r₁)

/-- Every step of a handshake between the two can succeed. -/
structure Succeeds : Prop where
  hello : ∃ draw message bytes s₀ s₁,
    C.step0 draw (C.initialized .initiator) = (.ok message, s₀) ∧
    C.encode s₀ message = (.ok bytes, s₁)
  reply : ∀ draw₀ hello s₀, C.step0 draw₀ (C.initialized .initiator) = (.ok hello.data, s₀) →
    ∃ draw reply transport bytes r₁ r₂,
      C.step1 draw (C.initialized .responder) hello = (.ok (reply, transport), r₁) ∧
      C.encode r₁ reply = (.ok bytes, r₂)
  finish : ∀ state reply, C.Answered state reply.data →
    ∃ draw transport state', C.step2 draw state reply = (.ok transport, state')

end NoiseCodec

end MiningPool
