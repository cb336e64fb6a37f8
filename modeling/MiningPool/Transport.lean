import MiningPool.Library.FrameStream
import MiningPool.NoiseConnection

/-!
# A stream between two ends

`write_raw_frame` and `write_sv2_message` at one end, `read_frame` under the select loop at the
other, and the bytes between them. Encoder and decoder are those of `codec_sv2` and are left
open; of the two together it is required that one frame gets through.

## Main result

`Link.frames_in_order`: whatever the chunks, the cancelled reads and the end of the stream, the
frames that were written arrive in order, each one once, and before an error all of them.
-/

namespace MiningPool

open BlockDecoder

variable {ρ δ φ : Type}

/-! ### Both ends -/

/-- The encoder of `codec_sv2` with the state of its session. -/
abbrev NoiseEncoder (ρ φ : Type) := FrameEncoder ρ UInt8 φ String

/-- The write half at one end, and the select loop at the other, whose socket holds what was
written and not read. `written` are the frames of the writes that returned `Ok`. -/
structure Link (ρ δ φ : Type) where
  writer : ρ
  written : List φ
  loop : SelectLoop δ φ

inductive LinkEvent (φ : Type)
  /-- A frame is written. -/
  | write (frame : φ)
  /-- The stream breaks after `n` bytes of a frame, and the write fails. -/
  | cut (frame : φ) (n : Nat) (ending : Ending)
  /-- The stream ends between two writes. -/
  | close (ending : Ending)
  | read (event : LoopEvent)

namespace Link

def new (writer : ρ) (decoder : δ) : Link ρ δ φ := ⟨writer, [], .new decoder ⟨[], none⟩⟩

/-- More bytes on their way, and maybe the end. -/
def push (l : Link ρ δ φ) (bytes : List UInt8) (ending : Option Ending) : Link ρ δ φ :=
  { l with loop := { l.loop with socket := ⟨l.loop.socket.incoming ++ bytes, ending⟩ } }

def step (E : NoiseEncoder ρ φ) (D : NoiseDecoder δ φ) (l : Link ρ δ φ) :
    LinkEvent φ → Option (Link ρ δ φ)
  | .write frame =>
    if l.loop.socket.ending = none then
      match E.encode l.writer frame with
      | (.ok bytes, writer) =>
        some ({ l with writer, written := l.written ++ [frame] }.push bytes none)
      -- "Noise encode error", and nothing is written
      | (.error _, writer) => some { l with writer }
    else none
  | .cut frame n ending =>
    if l.loop.socket.ending = none then
      match E.encode l.writer frame with
      | (.ok bytes, writer) =>
        if n < bytes.length then some ({ l with writer }.push (bytes.take n) (some ending))
        else none
      | (.error _, _) => none
    else none
  | .close ending =>
    if l.loop.socket.ending = none then some (l.push [] (some ending)) else none
  | .read event => (l.loop.step D event).map fun loop => { l with loop }

/-- The encoder takes the frame, if the event is a write. -/
def Encodes (E : NoiseEncoder ρ φ) (l : Link ρ δ φ) : LinkEvent φ → Prop
  | .write frame => (E.encode l.writer frame).1.isOk = true
  | _ => True

instance (E : NoiseEncoder ρ φ) (l : Link ρ δ φ) : DecidablePred (l.Encodes E)
  | .write frame => inferInstanceAs (Decidable ((E.encode l.writer frame).1.isOk = true))
  | .cut .. | .close _ | .read _ => isTrue trivial

/-- The bytes that were written and not yet decoded. -/
def underway (l : Link ρ δ φ) : List UInt8 := l.loop.reader.pending ++ l.loop.socket.incoming

/-! ### The invariant -/

/-- The frames that have arrived, those that are underway in full, and the end. -/
structure Flows (D : NoiseDecoder δ φ) (sync : ρ → δ → Prop) (l : Link ρ δ φ) : Prop where
  loop : l.loop.Inv D l.loop.socket.ending
  running : l.loop.control ≠ .closed → ∃ isCut delivered waiting,
    l.written = delivered ++ waiting ∧ l.loop.returned = delivered.map .ok ∧
      (l.loop.socket.ending = none → isCut = false) ∧
      D.blocks.InFlight sync l.writer isCut l.loop.reader.decoder l.underway waiting
  closed : l.loop.control = .closed → ∃ e, l.loop.socket.ending = some e ∧
    l.loop.returned = l.written.map .ok ++ [.error e.error]

variable {E : NoiseEncoder ρ φ} {D : NoiseDecoder δ φ} {sync : ρ → δ → Prop} {l l' : Link ρ δ φ}

private theorem push_inv (inv : l.loop.Inv D l.loop.socket.ending) (writer : ρ)
    (written : List φ) (bytes : List UInt8) (ending : Option Ending) :
    (Link.push { l with writer, written } bytes ending).loop.Inv D ending :=
  ⟨rfl, inv.whole, inv.reading, inv.sound⟩

theorem Flows.write (inStep : D.blocks.InStep E sync) (flows : l.Flows D sync)
    (more : l.loop.socket.ending = none) {frame : φ} {bytes : List UInt8} {writer : ρ}
    (encoded : E.encode l.writer frame = (.ok bytes, writer)) :
    (Link.push { l with writer, written := l.written ++ [frame] } bytes none).Flows D sync where
  loop := push_inv flows.loop _ _ bytes none
  running := by
    intro running
    obtain ⟨isCut, delivered, waiting, all, returned, intact, flight⟩ := flows.running running
    obtain rfl := intact more
    refine ⟨false, delivered, waiting ++ [frame], ?_, returned, fun _ => rfl, ?_⟩
    · rw [← List.append_assoc, ← all]
      rfl
    · have longer := flight.write inStep encoded
      rw [underway, List.append_assoc] at longer
      exact longer
  closed := by
    intro closed
    obtain ⟨e, ended, _⟩ := flows.closed closed
    rw [more] at ended
    cases ended

theorem Flows.cut (inStep : D.blocks.InStep E sync) (flows : l.Flows D sync)
    (more : l.loop.socket.ending = none) {frame : φ} {bytes : List UInt8} {writer : ρ}
    (encoded : E.encode l.writer frame = (.ok bytes, writer)) {n : Nat} (within : n < bytes.length)
    (ending : Ending) :
    (Link.push { l with writer } (bytes.take n) (some ending)).Flows D sync where
  loop := push_inv flows.loop _ _ _ _
  running := by
    intro running
    obtain ⟨isCut, delivered, waiting, all, returned, intact, flight⟩ := flows.running running
    obtain rfl := intact more
    refine ⟨true, delivered, waiting, all, returned, nofun, ?_⟩
    have longer := flight.cutOff inStep encoded within
    rw [underway, List.append_assoc] at longer
    exact longer
  closed := by
    intro closed
    obtain ⟨e, ended, _⟩ := flows.closed closed
    rw [more] at ended
    cases ended

theorem Flows.close (flows : l.Flows D sync) (more : l.loop.socket.ending = none)
    (ending : Ending) : (l.push [] (some ending)).Flows D sync where
  loop := push_inv flows.loop _ _ _ _
  running := by
    intro running
    obtain ⟨isCut, delivered, waiting, all, returned, intact, flight⟩ := flows.running running
    refine ⟨isCut, delivered, waiting, all, returned, nofun, ?_⟩
    rw [underway, push, List.append_nil]
    exact flight
  closed := by
    intro closed
    obtain ⟨e, ended, _⟩ := flows.closed closed
    rw [more] at ended
    cases ended

/-- What the loop's progress says about the link. -/
private theorem Flows.of_progress {loop : SelectLoop δ φ}
    (inv : loop.Inv D l.loop.socket.ending) (delivered : List φ) {waiting : List φ} {isCut : Bool}
    (all : l.written = delivered ++ waiting) (intact : l.loop.socket.ending = none → isCut = false)
    (more : loop.progress.ended = false) (returned : loop.progress.results = delivered.map .ok)
    (flight : D.blocks.InFlight sync l.writer isCut loop.progress.state loop.progress.rest
      waiting) : Flows D sync { l with loop } where
  loop := by rwa [inv.ending]
  running := fun _ => ⟨isCut, delivered, waiting, all, returned,
    fun open_ => intact (inv.ending.symm.trans open_), flight⟩
  closed := fun closed => absurd closed (of_decide_eq_false more)

theorem Flows.read (inStep : D.blocks.InStep E sync) (flows : l.Flows D sync) {event : LoopEvent}
    {loop : SelectLoop δ φ} (stepped : l.loop.step D event = some loop) :
    Flows D sync { l with loop } := by
  obtain ⟨inv, fed⟩ := SelectLoop.step_simulates flows.loop stepped
  by_cases closed : l.loop.control = .closed
  · -- nothing follows an error
    have fixed : loop.progress = l.loop.progress := by
      rcases fed with same | fed
      · exact same
      · rw [fed, feedStep_ended (decide_eq_true closed)]
    have closed' : loop.control = .closed := by
      have ended := congrArg Feed.ended fixed
      exact of_decide_eq_true (ended.trans (decide_eq_true closed))
    obtain ⟨e, ended, returned⟩ := flows.closed closed
    refine ⟨by rwa [inv.ending], fun running => absurd closed' running, fun _ => ⟨e, ?_, ?_⟩⟩
    · rw [← ended]
      exact inv.ending
    · exact (congrArg Feed.results fixed).trans returned
  · obtain ⟨isCut, delivered, waiting, all, returned, intact, flight⟩ := flows.running closed
    have more : l.loop.progress.ended = false := decide_eq_false closed
    rcases fed with same | fed
    · rw [← same] at more
      refine Flows.of_progress inv _ all intact more ?_ ?_
      · rw [same]
        exact returned
      · rw [same]
        exact flight
    · rcases feedStep_inFlight (e := l.loop.socket.ending.map Ending.error) inStep more flight
        with ⟨more', arrived, waiting', rfl, results, flight'⟩ | ⟨ended, rfl, e, ends, results⟩
      · rw [← fed] at more' results flight'
        refine Flows.of_progress inv (delivered ++ arrived) ?_ intact more' ?_ flight'
        · rw [all, List.append_assoc]
        · rw [results, List.map_append, ← returned]
          rfl
      · -- the stream is over, and everything has arrived
        rw [← fed] at ended results
        obtain ⟨ending, ends', rfl⟩ := Option.map_eq_some_iff.mp ends
        refine ⟨by rwa [inv.ending], fun running => absurd (of_decide_eq_true ended) running,
          fun _ => ⟨ending, inv.ending.trans ends', ?_⟩⟩
        rw [all, List.append_nil, ← returned]
        exact results

theorem Flows.step (inStep : D.blocks.InStep E sync) (flows : l.Flows D sync)
    {event : LinkEvent φ} (encodes : l.Encodes E event) (stepped : l.step E D event = some l') :
    l'.Flows D sync := by
  cases event with
  | write frame =>
    simp only [Link.step, Option.ite_none_right_eq_some] at stepped
    obtain ⟨more, stepped⟩ := stepped
    split at stepped
    next bytes writer encoded =>
      cases stepped
      exact flows.write inStep more encoded
    next e writer failed =>
      rw [Encodes, failed] at encodes
      cases encodes
  | cut frame n ending =>
    simp only [Link.step, Option.ite_none_right_eq_some] at stepped
    obtain ⟨more, stepped⟩ := stepped
    split at stepped
    next bytes writer encoded =>
      obtain ⟨within, eq⟩ := Option.ite_none_right_eq_some.mp stepped
      cases eq
      exact flows.cut inStep more encoded within ending
    · cases stepped
  | close ending =>
    simp only [Link.step, Option.ite_none_right_eq_some] at stepped
    obtain ⟨more, eq⟩ := stepped
    cases eq
    exact flows.close more ending
  | read event =>
    obtain ⟨loop, read, rfl⟩ := Option.map_eq_some_iff.mp stepped
    exact flows.read inStep read

/-! ### Runs -/

theorem run_flows (inStep : D.blocks.InStep E sync) {writer : ρ} {decoder : δ}
    (synced : sync writer decoder) {events : List (LinkEvent φ)}
    (ran : Execution.run (Link.step E D) (.new writer decoder) events = some l)
    (encodes : Execution.Along (Link.step E D) (Link.Encodes E) (.new writer decoder) events) :
    l.Flows D sync := by
  refine Execution.run_invariant_along (fun l : Link ρ δ φ => l.Flows D sync)
    (fun l event l' flows encodes stepped => flows.step inStep encodes stepped) ?_ encodes ran
  refine ⟨⟨rfl, .inl rfl, nofun, nofun⟩, fun _ => ?_, nofun⟩
  exact ⟨false, [], [], rfl, rfl, fun _ => rfl, .whole (.nil decoder) synced⟩

/-- A reader alone. -/
private theorem run_read {loop : SelectLoop δ φ} {events : List LoopEvent}
    (ran : Execution.run (SelectLoop.step D) l.loop events = some loop) :
    Execution.run (Link.step E D) l (events.map .read) = some { l with loop } := by
  induction events generalizing l with
  | nil =>
    cases ran
    rfl
  | cons event events ih =>
    rw [Execution.run_cons, Option.bind_eq_some_iff] at ran
    obtain ⟨between, first, ran⟩ := ran
    rw [List.map_cons, Execution.run_cons, Link.step, first, Option.map_some, Option.bind_some]
    exact ih (l := { l with loop := between }) ran

/-- What is underway in full can be read. -/
theorem Flows.drain (flows : l.Flows D sync) : ∃ (events : List LoopEvent) (loop : SelectLoop δ φ),
    Execution.run (SelectLoop.step D) l.loop events = some loop ∧
      l.written.map .ok <+: loop.returned := by
  by_cases closed : l.loop.control = .closed
  · obtain ⟨e, _, returned⟩ := flows.closed closed
    exact ⟨[], l.loop, rfl, returned ▸ List.prefix_append ..⟩
  obtain ⟨isCut, delivered, waiting, all, returned, _, flight⟩ := flows.running closed
  have more : l.loop.progress.ended = false := decide_eq_false closed
  obtain ⟨state', input, rest, frames, split⟩ : ∃ state' input rest,
      D.blocks.Frames l.loop.progress.state input waiting state' ∧
        l.loop.progress.rest = input ++ rest := by
    change D.blocks.InFlight sync l.writer isCut l.loop.progress.state l.loop.progress.rest
      waiting at flight
    generalize l.loop.progress.rest = underway at flight
    cases flight with
    | whole frames => exact ⟨_, _, [], frames, (List.append_nil _).symm⟩
    | cut frames => exact ⟨_, _, _, frames, rfl⟩
  -- so many blocks, and the loop can go on that far
  obtain ⟨blocks, fed⟩ :=
    feed_frames (e := l.loop.socket.ending.map Ending.error) more frames split
  obtain ⟨events, loop, ran, reached⟩ := Execution.run_catches_up
    (fun loop event loop' inv stepped => (SelectLoop.step_simulates inv stepped).1)
    (fun loop inv => SelectLoop.advance inv) flows.loop blocks
  rw [fed] at reached
  refine ⟨events, loop, ran, ?_⟩
  have results : loop.returned = l.loop.returned ++ waiting.map .ok :=
    congrArg Feed.results reached
  rw [results, returned, ← List.map_append, ← all]

/-- What a reader has of the frames that were written: those that arrived are the first ones, in
order. A reader that waits with nothing underway has all of them, and so has one that met the end
of the stream. -/
structure InOrder (l : Link ρ δ φ) : Prop where
  sound : l.loop.control ≠ .panicked
  running : l.loop.control ≠ .closed → ∃ waiting,
    l.written.map .ok = l.loop.returned ++ waiting.map .ok ∧
      ((∃ expected, l.loop.control = .suspended (.read expected)) →
        l.loop.socket.incoming = [] → waiting = [])
  closed : l.loop.control = .closed → ∃ e, l.loop.socket.ending = some e ∧
    l.loop.returned = l.written.map .ok ++ [.error e.error]

theorem Flows.inOrder (flows : l.Flows D sync) : l.InOrder where
  sound := flows.loop.sound
  running := by
    intro running
    obtain ⟨isCut, delivered, waiting, all, returned, _, flight⟩ := flows.running running
    refine ⟨waiting, by rw [all, List.map_append, returned], ?_⟩
    rintro ⟨expected, reading⟩ drained
    by_contra some_
    -- the reader has less than the block it wants
    have enough := flight.enough some_
    obtain ⟨rfl, full, short⟩ := flows.loop.reading expected reading
    rw [underway, drained, List.append_nil, NoiseReadHalf.pending, List.length_take] at enough
    change D.writableLen l.loop.reader.decoder ≤ _ at enough
    omega
  closed := flows.closed

/-- For every interleaving of writes and reads, however the bytes are cut into reads, wherever
`read_frame` is cancelled, and wherever the stream ends: the frames read are those written, in
order and each one once. A reader that waits with nothing underway has read all of them, so has
one that met the end of the stream, and what was written can always still be read. -/
theorem frames_in_order (inStep : D.blocks.InStep E sync) {writer : ρ} {decoder : δ}
    (synced : sync writer decoder) {events : List (LinkEvent φ)}
    (ran : Execution.run (Link.step E D) (.new writer decoder) events = some l)
    (encodes : Execution.Along (Link.step E D) (Link.Encodes E) (.new writer decoder) events) :
    l.loop.control ≠ .panicked ∧
    (l.loop.control ≠ .closed → ∃ waiting,
      l.written.map .ok = l.loop.returned ++ waiting.map .ok ∧
      ((∃ expected, l.loop.control = .suspended (.read expected)) →
        l.loop.socket.incoming = [] → waiting = [])) ∧
    (l.loop.control = .closed → ∃ e, l.loop.socket.ending = some e ∧
      l.loop.returned = l.written.map .ok ++ [.error e.error]) ∧
    ∃ (later : List LoopEvent) (l' : Link ρ δ φ),
      Execution.run (Link.step E D) l (later.map .read) = some l' ∧
      l.written.map .ok <+: l'.loop.returned := by
  have flows := run_flows inStep synced ran encodes
  have inOrder := flows.inOrder
  obtain ⟨later, loop, read, all⟩ := flows.drain
  exact ⟨inOrder.sound, inOrder.running, inOrder.closed, later, _, run_read read, all⟩

end Link

/-! ### Frames in plain text -/

/-- The encoder for `plainDecoder`: a tag of 16 bytes after the header, and another one after
the payload, if there is one. -/
def plainEncoder : NoiseEncoder Unit (List UInt8) where
  encode _ frame :=
    match frame with
    | e :: x :: t :: a :: b :: c :: payload =>
      if a.toNat + 256 * b.toNat + 65536 * c.toNat = payload.length then
        let tail := if payload = [] then [] else payload ++ List.replicate 16 0
        (.ok ([e, x, t, a, b, c] ++ List.replicate 16 0 ++ tail), ())
      else (.error "InvalidFrame", ())
    | _ => (.error "InvalidFrame", ())

/-- The decoder is between two frames, and may not yet have been asked for one. -/
def PlainSync (_ : Unit) (d : PlainDecoder) : Prop := d = ⟨0, [], none⟩ ∨ d = ⟨22, [], none⟩

private theorem plain_header (e x t a b c : UInt8) :
    plainDecoder.blocks.next ⟨22, [], none⟩ ([e, x, t, a, b, c] ++ List.replicate 16 0) =
      (⟨encryptedLen [e, x, t, a, b, c], [], some [e, x, t, a, b, c]⟩, none) := by
  simp [NoiseDecoder.blocks_next, plainDecoder, visible]

private theorem plain_payload {header payload : List UInt8}
    (len : encryptedLen header = if payload = [] then 0 else payload.length + 16) :
    let tail := if payload = [] then [] else payload ++ List.replicate 16 0
    tail.length = encryptedLen header ∧
      plainDecoder.blocks.next ⟨encryptedLen header, [], some header⟩ tail =
        (⟨22, [], none⟩, some (.ok (header ++ payload))) := by
  by_cases empty : payload = []
  · subst empty
    simp_all [NoiseDecoder.blocks_next, plainDecoder, visible]
  · simp_all [NoiseDecoder.blocks_next, plainDecoder, visible]

private theorem plain_frame {e x t a b c : UInt8} {payload : List UInt8}
    (len : a.toNat + 256 * b.toNat + 65536 * c.toNat = payload.length) :
    plainDecoder.blocks.Frame ⟨22, [], none⟩ ([e, x, t, a, b, c] ++ List.replicate 16 0 ++
      if payload = [] then [] else payload ++ List.replicate 16 0)
      (e :: x :: t :: a :: b :: c :: payload) ⟨22, [], none⟩ := by
  have known : encryptedLen [e, x, t, a, b, c] =
      if payload = [] then 0 else payload.length + 16 := by
    simp [encryptedLen, len]
  obtain ⟨full, next⟩ := plain_payload known
  exact .more rfl (plain_header e x t a b c) (.last full next)

theorem plain_inStep : plainDecoder.blocks.InStep plainEncoder PlainSync where
  frame := by
    intro _ d frame input _ synced encoded
    simp only [plainEncoder] at encoded
    split at encoded
    next e x t a b c payload =>
      split at encoded
      next len =>
        cases encoded
        refine ⟨⟨22, [], none⟩, ?_, .inr rfl⟩
        rcases synced with rfl | rfl
        -- a decoder that was not asked yet wants nothing first
        · exact .silent rfl rfl (plain_frame len)
        · exact plain_frame len
      · cases encoded
    · cases encoded
  idle := by
    rintro _ d (rfl | rfl) silent
    · exact ⟨⟨22, [], none⟩, rfl, .inr rfl⟩
    · cases silent

/-- Two frames are written while the first one is read in pieces, the third is cut off. -/
def plainEvents : List (LinkEvent (List UInt8)) :=
  [.read .call, .write [0, 0, 0x1a, 2, 0, 0, 7, 8], .read .drop, .read .call, .read (.read 5),
    .read .drop, .write [0, 0, 0x1b, 0, 0, 0], .read .call, .read (.read 17), .read .wake,
    .cut [0, 0, 0x1b, 0, 0, 0] 7 .failed, .read (.read 18), .read .call, .read (.read 22),
    .read .wake, .read .call, .read (.read 7), .read .readFailed]

theorem frames_in_order_plain : ∃ l : Link Unit PlainDecoder (List UInt8),
    Execution.run (Link.step plainEncoder plainDecoder) (.new () ⟨0, [], none⟩) plainEvents =
        some l ∧
      l.written = [[0, 0, 0x1a, 2, 0, 0, 7, 8], [0, 0, 0x1b, 0, 0, 0]] ∧
      ∃ e, l.loop.socket.ending = some e ∧
        l.loop.returned = l.written.map .ok ++ [.error e.error] := by
  obtain ⟨l, ran, written, closed⟩ : ∃ l : Link Unit PlainDecoder (List UInt8),
      Execution.run (Link.step plainEncoder plainDecoder) (.new () ⟨0, [], none⟩) plainEvents =
          some l ∧
        l.written = [[0, 0, 0x1a, 2, 0, 0, 7, 8], [0, 0, 0x1b, 0, 0, 0]] ∧
        l.loop.control = .closed := ⟨_, rfl, rfl, rfl⟩
  have encodes : Execution.Along (Link.step plainEncoder plainDecoder)
      (Link.Encodes plainEncoder) (.new () ⟨0, [], none⟩) plainEvents := by
    decide +kernel
  obtain ⟨_, _, ended, _⟩ := Link.frames_in_order plain_inStep (.inl rfl) ran encodes
  exact ⟨l, ran, written, ended closed⟩

end MiningPool
