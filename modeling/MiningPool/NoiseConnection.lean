import MiningPool.Library.BlockDecoder
import MiningPool.Library.Execution

/-!
# Frames of a connection

`read_frame` as a future that the select loop of `handle_connection` may drop wherever it
awaits. Only the buffer, the number of bytes in it and the decoder survive. The decoder is
that of `codec_sv2` and is left open.
-/

namespace MiningPool

variable {δ φ : Type}

/-! ### The decoder -/

/-- Why there is no frame yet, or none at all. -/
inductive DecodeError
  | missingBytes (n : Nat)
  | other (debug : String)

/-- A state is that of the decoder together with the state of the session. -/
structure NoiseDecoder (δ φ : Type) where
  writableLen : δ → Nat
  /-- `writable().copy_from_slice(bytes)` -/
  write : δ → List UInt8 → δ
  nextFrame : δ → Except DecodeError φ × δ

/-! ### `read_frame` -/

structure NoiseReadHalf (δ : Type) where
  decoder : δ
  buf : List UInt8
  bytesRead : Nat

/-- Where `read_frame` is suspended. The expected length is a local variable, lost with the
future. -/
inductive Await
  | read (expected : Nat)
  | yieldNow
deriving DecidableEq

inductive Poll (φ : Type)
  | pending (await : Await)
  | ready (result : Except String φ)
  | panicked

/-- `Vec::resize` with zeros. -/
def resize (buf : List UInt8) (len : Nat) : List UInt8 :=
  buf.take len ++ List.replicate (len - buf.length) 0

@[simp] theorem length_resize (buf : List UInt8) (len : Nat) : (resize buf len).length = len := by
  simp only [resize, List.length_append, List.length_take, List.length_replicate]
  omega

namespace NoiseReadHalf

variable (D : NoiseDecoder δ φ)

/-- The rest of the loop's body once the buffer is full. -/
def decode (h : NoiseReadHalf δ) : NoiseReadHalf δ × Poll φ :=
  -- `copy_from_slice` panics on slices of different lengths
  if h.buf.length ≠ D.writableLen h.decoder then (h, .panicked)
  else
    match D.nextFrame (D.write h.decoder h.buf) with
    | (.ok frame, decoder) => ({ h with decoder, bytesRead := 0 }, .ready (.ok frame))
    | (.error (.missingBytes _), decoder) =>
      ({ h with decoder, bytesRead := 0 }, .pending .yieldNow)
    | (.error (.other e), decoder) =>
      ({ h with decoder, bytesRead := 0 }, .ready (.error ("frame decode error: " ++ e)))

/-- The inner loop up to its next read. -/
def fill (expected : Nat) (h : NoiseReadHalf δ) : NoiseReadHalf δ × Poll φ :=
  if h.bytesRead < expected then
    -- the slice `buf[bytes_read..]`
    if h.bytesRead ≤ h.buf.length then (h, .pending (.read expected)) else (h, .panicked)
  else h.decode D

/-- From the top of the loop: what a call does first, and what follows `yield_now`. -/
def readFrame (h : NoiseReadHalf δ) : NoiseReadHalf δ × Poll φ :=
  let expected := D.writableLen h.decoder
  if h.buf.length ≠ expected then
    fill D expected { h with buf := resize h.buf expected, bytesRead := 0 }
  else fill D expected h

/-- A read has come back with some bytes. -/
def received (expected : Nat) (bytes : List UInt8) (h : NoiseReadHalf δ) :
    NoiseReadHalf δ × Poll φ :=
  if bytes = [] then (h, .ready (.error "connection closed"))
  else
    fill D expected
      { h with
        buf := h.buf.take h.bytesRead ++ bytes ++ h.buf.drop (h.bytesRead + bytes.length)
        bytesRead := h.bytesRead + bytes.length }

/-- The bytes that were read for the next block of the decoder. -/
def pending (h : NoiseReadHalf δ) : List UInt8 := h.buf.take h.bytesRead

end NoiseReadHalf

/-! ### The select loop -/

/-- How the peer's stream ends. -/
inductive Ending
  | closed
  | failed
deriving DecidableEq

/-- All that the peer will have sent, and how the stream ends, if it does. -/
structure Socket where
  incoming : List UInt8
  ending : Option Ending

/-- Whether a read into `room` bytes may come back with `n`. It comes back with none at the end
of the stream, or if there is no room. -/
def Socket.Delivers (s : Socket) (room n : Nat) : Prop :=
  n ≤ room ∧ n ≤ s.incoming.length ∧
    (n = 0 → room = 0 ∨ s.incoming = [] ∧ s.ending = some .closed)

instance (s : Socket) (room n : Nat) : Decidable (s.Delivers room n) :=
  inferInstanceAs (Decidable (_ ∧ _ ∧ _))

/-- Between two calls, within one, or after the loop has returned. -/
inductive Control
  | idle
  | suspended (await : Await)
  | closed
  | panicked
deriving DecidableEq

/-- The loop, as far as it reads. `returned` is what the calls of `read_frame` returned. -/
structure SelectLoop (δ φ : Type) where
  reader : NoiseReadHalf δ
  socket : Socket
  control : Control
  returned : List (Except String φ)

inductive LoopEvent
  /-- `read_frame` is called and polled for the first time. -/
  | call
  | read (n : Nat)
  | readFailed
  /-- `yield_now` is over. -/
  | wake
  /-- A new template wins, and the future is dropped. -/
  | drop

namespace SelectLoop

/-- An error ends the loop. -/
def settle (l : SelectLoop δ φ) : NoiseReadHalf δ × Poll φ → SelectLoop δ φ
  | (reader, .pending await) => { l with reader, control := .suspended await }
  | (reader, .ready (.ok frame)) =>
    { l with reader, control := .idle, returned := l.returned ++ [.ok frame] }
  | (reader, .ready (.error e)) =>
    { l with reader, control := .closed, returned := l.returned ++ [.error e] }
  | (reader, .panicked) => { l with reader, control := .panicked }

def room (l : SelectLoop δ φ) : Nat := l.reader.buf.length - l.reader.bytesRead

/-- The read half after the handshake. -/
def new (decoder : δ) (socket : Socket) : SelectLoop δ φ :=
  ⟨⟨decoder, [], 0⟩, socket, .idle, []⟩

def step (D : NoiseDecoder δ φ) (l : SelectLoop δ φ) : LoopEvent → Option (SelectLoop δ φ)
  | .call => if l.control = .idle then some (l.settle (l.reader.readFrame D)) else none
  | .read n =>
    match l.control with
    | .suspended (.read expected) =>
      if l.socket.Delivers l.room n then
        let rest := { l.socket with incoming := l.socket.incoming.drop n }
        some ({ l with socket := rest }.settle
          (l.reader.received D expected (l.socket.incoming.take n)))
      else none
    | _ => none
  | .readFailed =>
    match l.control with
    | .suspended (.read _) =>
      if l.socket.incoming = [] ∧ l.socket.ending = some .failed then
        some (l.settle (l.reader, .ready (.error "read error")))
      else none
    | _ => none
  | .wake =>
    if l.control = .suspended .yieldNow then some (l.settle (l.reader.readFrame D)) else none
  | .drop =>
    match l.control with
    | .suspended _ => some { l with control := .idle }
    | _ => none

end SelectLoop

/-! ### The stream as fed to the decoder -/

/-- What a caller sees of the decoder's answer. -/
def visible : Except DecodeError φ → Option (Except String φ)
  | .ok frame => some (.ok frame)
  | .error (.missingBytes _) => none
  | .error (.other e) => some (.error ("frame decode error: " ++ e))

/-- The decoder without a reader. -/
def NoiseDecoder.blocks (D : NoiseDecoder δ φ) : BlockDecoder δ UInt8 φ String where
  need := D.writableLen
  next decoder bytes :=
    let (answer, decoder') := D.nextFrame (D.write decoder bytes)
    (decoder', visible answer)

theorem NoiseDecoder.blocks_next (D : NoiseDecoder δ φ) (decoder : δ) (bytes : List UInt8) :
    D.blocks.next decoder bytes = ((D.nextFrame (D.write decoder bytes)).2,
      visible (D.nextFrame (D.write decoder bytes)).1) := rfl

def Ending.error : Ending → String
  | .closed => "connection closed"
  | .failed => "read error"

/-- What is still to be fed is what was read but not decoded, and what was not read. -/
def SelectLoop.progress (l : SelectLoop δ φ) : BlockDecoder.Feed δ UInt8 φ String :=
  ⟨l.reader.decoder, l.reader.pending ++ l.socket.incoming, l.returned, l.control = .closed⟩

/-- The same while the loop runs. -/
private def open_ (l : SelectLoop δ φ) : BlockDecoder.Feed δ UInt8 φ String :=
  ⟨l.reader.decoder, l.reader.pending ++ l.socket.incoming, l.returned, false⟩

private theorem progress_eq_open {l : SelectLoop δ φ} (running : l.control ≠ .closed) :
    l.progress = open_ l := by
  rw [SelectLoop.progress, open_, decide_eq_false running]

private theorem running_of {l : SelectLoop δ φ} {control : Control} (here : l.control = control)
    (running : control ≠ .closed) : l.control ≠ .closed := by
  rw [here]
  exact running

/-! ### The invariant -/

/-- Bytes of an unfinished block are in a buffer of the length that the decoder still expects. -/
def NoiseReadHalf.Partial (D : NoiseDecoder δ φ) (h : NoiseReadHalf δ) : Prop :=
  h.bytesRead = 0 ∨ h.buf.length = D.writableLen h.decoder ∧ h.bytesRead < h.buf.length

structure SelectLoop.Inv (D : NoiseDecoder δ φ) (ending : Option Ending) (l : SelectLoop δ φ) :
    Prop where
  ending : l.socket.ending = ending
  whole : l.reader.Partial D
  reading : ∀ expected, l.control = .suspended (.read expected) →
    expected = D.writableLen l.reader.decoder ∧ l.reader.buf.length = expected ∧
      l.reader.bytesRead < expected
  sound : l.control ≠ .panicked

section Spec

variable {D : NoiseDecoder δ φ} {ending : Option Ending} {l : SelectLoop δ φ}

/-- A full buffer is one block. -/
private theorem settle_decode (ends : l.socket.ending = ending)
    (full : l.reader.buf.length = D.writableLen l.reader.decoder) :
    (l.settle (l.reader.decode D)).Inv D ending ∧
      (l.settle (l.reader.decode D)).progress = D.blocks.feedStep (ending.map Ending.error)
        ⟨l.reader.decoder, l.reader.buf ++ l.socket.incoming, l.returned, false⟩ := by
  rw [BlockDecoder.feedStep_block rfl rfl full, NoiseReadHalf.decode, if_neg (not_not_intro full),
    NoiseDecoder.blocks_next]
  generalize D.nextFrame (D.write l.reader.decoder l.reader.buf) = answer
  obtain ⟨result, decoder⟩ := answer
  -- every answer of the decoder empties the buffer
  cases result with
  | ok frame => exact ⟨⟨ends, .inl rfl, nofun, nofun⟩, rfl⟩
  | error e =>
    cases e with
    | missingBytes n => exact ⟨⟨ends, .inl rfl, nofun, nofun⟩, rfl⟩
    | other e => exact ⟨⟨ends, .inl rfl, nofun, nofun⟩, rfl⟩

private theorem settle_fill_short (ends : l.socket.ending = ending)
    (full : l.reader.buf.length = D.writableLen l.reader.decoder)
    (short : l.reader.bytesRead < D.writableLen l.reader.decoder) :
    (l.settle (l.reader.fill D (D.writableLen l.reader.decoder))).Inv D ending ∧
      l.settle (l.reader.fill D (D.writableLen l.reader.decoder)) =
        { l with control := .suspended (.read (D.writableLen l.reader.decoder)) } := by
  have fits : l.reader.bytesRead ≤ l.reader.buf.length := by omega
  rw [NoiseReadHalf.fill, if_pos short, if_pos fits]
  refine ⟨⟨ends, .inr ⟨full, full ▸ short⟩, ?_, nofun⟩, rfl⟩
  intro expected same
  cases same
  exact ⟨rfl, full, short⟩

private theorem settle_fill_full (ends : l.socket.ending = ending)
    (full : l.reader.buf.length = D.writableLen l.reader.decoder)
    (filled : D.writableLen l.reader.decoder ≤ l.reader.bytesRead) :
    (l.settle (l.reader.fill D (D.writableLen l.reader.decoder))).Inv D ending ∧
      (l.settle (l.reader.fill D (D.writableLen l.reader.decoder))).progress =
        D.blocks.feedStep (ending.map Ending.error) (open_ l) := by
  have all : l.reader.pending = l.reader.buf := List.take_of_length_le (by omega)
  rw [NoiseReadHalf.fill, if_neg (Nat.not_lt.mpr filled), open_, all]
  exact settle_decode ends full

/-- A poll waits for more of the same block, or it feeds one. -/
private theorem settle_fill (ends : l.socket.ending = ending)
    (full : l.reader.buf.length = D.writableLen l.reader.decoder) :
    (l.settle (l.reader.fill D (D.writableLen l.reader.decoder))).Inv D ending ∧
      ((l.settle (l.reader.fill D (D.writableLen l.reader.decoder))).progress = open_ l ∨
        (l.settle (l.reader.fill D (D.writableLen l.reader.decoder))).progress =
          D.blocks.feedStep (ending.map Ending.error) (open_ l)) := by
  by_cases short : l.reader.bytesRead < D.writableLen l.reader.decoder
  · obtain ⟨inv, waits⟩ := settle_fill_short ends full short
    refine ⟨inv, .inl ?_⟩
    rw [waits]
    rfl
  · obtain ⟨inv, fed⟩ := settle_fill_full ends full (Nat.not_lt.mp short)
    exact ⟨inv, .inr fed⟩

/-- A poll replaces the read half. -/
private theorem settle_reader (reader : NoiseReadHalf δ) (polled : NoiseReadHalf δ × Poll φ) :
    l.settle polled = SelectLoop.settle { l with reader } polled := by
  obtain ⟨reader', poll⟩ := polled
  cases poll with
  | pending await => rfl
  | ready result =>
    cases result with
    | ok frame => rfl
    | error e => rfl
  | panicked => rfl

/-- The loop after the buffer was brought to the expected length. -/
private def fitted (D : NoiseDecoder δ φ) (l : SelectLoop δ φ) : SelectLoop δ φ :=
  if l.reader.buf.length ≠ D.writableLen l.reader.decoder then
    { l with
      reader :=
        ⟨l.reader.decoder, resize l.reader.buf (D.writableLen l.reader.decoder), 0⟩ }
  else l

/-- The buffer changes its length only when nothing is in it. -/
private theorem fitted_spec (whole : l.reader.Partial D) :
    (fitted D l).reader.decoder = l.reader.decoder ∧ (fitted D l).socket = l.socket ∧
      (fitted D l).reader.buf.length = D.writableLen l.reader.decoder ∧
      open_ (fitted D l) = open_ l ∧
      l.settle (l.reader.readFrame D) = (fitted D l).settle
        ((fitted D l).reader.fill D (D.writableLen l.reader.decoder)) := by
  rw [NoiseReadHalf.readFrame, fitted]
  split
  -- a resized buffer held nothing, by the invariant, so no byte is lost
  next changed =>
    have nothing : l.reader.bytesRead = 0 := whole.resolve_right (fun kept => changed kept.1)
    have empty : l.reader.pending = [] := by rw [NoiseReadHalf.pending, nothing, List.take_zero]
    refine ⟨rfl, rfl, length_resize .., ?_, ?_⟩
    · rw [open_, open_, empty]
      rfl
    · exact settle_reader ..
  next same => exact ⟨rfl, rfl, not_not.mp same, rfl, rfl⟩

private theorem settle_readFrame (ends : l.socket.ending = ending) (whole : l.reader.Partial D) :
    (l.settle (l.reader.readFrame D)).Inv D ending ∧
      ((l.settle (l.reader.readFrame D)).progress = open_ l ∨
        (l.settle (l.reader.readFrame D)).progress =
          D.blocks.feedStep (ending.map Ending.error) (open_ l)) := by
  obtain ⟨decoder, socket, full, same, polled⟩ := fitted_spec whole
  rw [← decoder] at full polled
  rw [← same, polled]
  exact settle_fill (by rw [socket, ends]) full

/-- The loop with some bytes moved into the buffer. -/
private def arrived (l : SelectLoop δ φ) (n : Nat) : SelectLoop δ φ :=
  { l with
    reader :=
      { l.reader with
        buf := l.reader.buf.take l.reader.bytesRead ++ l.socket.incoming.take n ++
          l.reader.buf.drop (l.reader.bytesRead + n)
        bytesRead := l.reader.bytesRead + n }
    socket := { l.socket with incoming := l.socket.incoming.drop n } }

private theorem arrived_spec {n : Nat} (fits : l.reader.bytesRead + n ≤ l.reader.buf.length)
    (delivered : n ≤ l.socket.incoming.length) :
    (arrived l n).reader.buf.length = l.reader.buf.length ∧ open_ (arrived l n) = open_ l := by
  have here : (l.reader.buf.take l.reader.bytesRead ++ l.socket.incoming.take n).length =
      l.reader.bytesRead + n := by
    rw [List.length_append, List.length_take, List.length_take]
    omega
  constructor
  · -- the bytes fill their place in the buffer
    have length : (arrived l n).reader.buf.length = l.reader.bytesRead + n +
        (l.reader.buf.drop (l.reader.bytesRead + n)).length := by
      exact List.length_append.trans (congrArg (· + _) here)
    rw [length, List.length_drop]
    omega
  · -- they only move from the stream to the buffer
    have moved : (arrived l n).reader.pending = l.reader.pending ++ l.socket.incoming.take n := by
      rw [NoiseReadHalf.pending, arrived, ← here, List.take_left]
      rfl
    rw [open_, moved, List.append_assoc, arrived, List.take_append_drop]
    rfl

/-- A read that comes back with some bytes goes on in the inner loop. -/
private theorem settle_received {n expected : Nat} (some_ : 0 < n)
    (delivered : n ≤ l.socket.incoming.length) :
    SelectLoop.settle { l with socket := { l.socket with incoming := l.socket.incoming.drop n } }
        (l.reader.received D expected (l.socket.incoming.take n)) =
      (arrived l n).settle ((arrived l n).reader.fill D expected) := by
  have length : (l.socket.incoming.take n).length = n := List.length_take_of_le delivered
  have nonempty : l.socket.incoming.take n ≠ [] := by
    intro empty
    rw [empty, List.length_nil] at length
    omega
  rw [NoiseReadHalf.received, if_neg nonempty, length]
  exact settle_reader ..

/-- A block of which nothing more will come is too short for the decoder as well. -/
private theorem feedStep_drained {expected : Nat} (inv : l.Inv D ending)
    (reading : l.control = .suspended (.read expected)) (drained : l.socket.incoming = []) :
    D.blocks.feedStep (ending.map Ending.error) l.progress =
      (ending.map Ending.error).elim l.progress fun e =>
        { l.progress with results := l.returned ++ [.error e], ended := true } := by
  obtain ⟨rfl, full, short⟩ := inv.reading expected reading
  have running := running_of reading nofun
  have more : l.progress.ended = false := decide_eq_false running
  refine BlockDecoder.feedStep_short more ?_
  change (l.reader.pending ++ l.socket.incoming).length < D.writableLen l.reader.decoder
  rw [drained, List.append_nil, NoiseReadHalf.pending, List.length_take]
  omega

/-- The end of the stream within a block. -/
private theorem settle_end {e : Ending} {expected : Nat} (inv : l.Inv D ending)
    (reading : l.control = .suspended (.read expected)) (drained : l.socket.incoming = [])
    (ends : l.socket.ending = some e) :
    (l.settle (l.reader, .ready (.error e.error))).Inv D ending ∧
      (l.settle (l.reader, .ready (.error e.error))).progress =
        D.blocks.feedStep (ending.map Ending.error) l.progress := by
  refine ⟨⟨inv.ending, inv.whole, nofun, nofun⟩, ?_⟩
  rw [feedStep_drained inv reading drained, ← inv.ending, ends]
  rfl

/-- Every event leaves what the decoder was fed as it is, or feeds one block. -/
theorem SelectLoop.step_simulates {event : LoopEvent} {l' : SelectLoop δ φ} (inv : l.Inv D ending)
    (stepped : l.step D event = some l') : l'.Inv D ending ∧ (l'.progress = l.progress ∨
      l'.progress = D.blocks.feedStep (ending.map Ending.error) l.progress) := by
  cases event with
  | call =>
    simp only [SelectLoop.step, Option.ite_none_right_eq_some, Option.some.injEq] at stepped
    obtain ⟨idle, rfl⟩ := stepped
    have running := running_of idle nofun
    rw [progress_eq_open running]
    exact settle_readFrame inv.ending inv.whole
  | wake =>
    simp only [SelectLoop.step, Option.ite_none_right_eq_some, Option.some.injEq] at stepped
    obtain ⟨yielded, rfl⟩ := stepped
    have running := running_of yielded nofun
    rw [progress_eq_open running]
    exact settle_readFrame inv.ending inv.whole
  | read n =>
    rw [SelectLoop.step] at stepped
    split at stepped
    next expected reading =>
      obtain ⟨⟨fits, delivered, none_⟩, stepped⟩ := Option.ite_none_right_eq_some.mp stepped
      cases stepped
      obtain ⟨rfl, full, short⟩ := inv.reading expected reading
      rcases Nat.eq_zero_or_pos n with rfl | some_
      · -- no bytes: there was room, so this is the end of the stream
        obtain ⟨drained, closed⟩ := (none_ rfl).resolve_left
          (by rw [SelectLoop.room]; omega)
        obtain ⟨inv', fed⟩ := settle_end inv reading drained closed
        exact ⟨inv', .inr fed⟩
      · rw [SelectLoop.room] at fits
        obtain ⟨length, same⟩ := arrived_spec (by omega) delivered
        have running := running_of reading nofun
        rw [settle_received some_ delivered, progress_eq_open running, ← same]
        exact settle_fill inv.ending (length.trans full)
    · cases stepped
  | readFailed =>
    rw [SelectLoop.step] at stepped
    split at stepped
    next expected reading =>
      obtain ⟨⟨drained, failed⟩, stepped⟩ := Option.ite_none_right_eq_some.mp stepped
      cases stepped
      obtain ⟨inv', fed⟩ := settle_end inv reading drained failed
      exact ⟨inv', .inr fed⟩
    · cases stepped
  | drop =>
    rw [SelectLoop.step] at stepped
    split at stepped
    next await suspended =>
      cases stepped
      -- only the suspended future is lost; the bytes it read stay in the buffer
      refine ⟨⟨inv.ending, inv.whole, nofun, nofun⟩, .inl ?_⟩
      have running := running_of suspended nofun
      rw [progress_eq_open running]
      rfl
    · cases stepped

/-! ### Progress -/

/-- The loop has returned, or waits for bytes of which none will come. -/
def SelectLoop.Finished (l : SelectLoop δ φ) : Prop :=
  l.control = .closed ∨ (∃ expected, l.control = .suspended (.read expected)) ∧
    l.socket.incoming = [] ∧ l.socket.ending = none

theorem SelectLoop.finished_fixed (inv : l.Inv D ending) (finished : l.Finished) :
    D.blocks.feedStep (ending.map Ending.error) l.progress = l.progress := by
  rcases finished with closed | ⟨⟨expected, reading⟩, drained, more⟩
  · exact BlockDecoder.feedStep_ended (decide_eq_true closed)
  · rw [feedStep_drained inv reading drained, ← inv.ending, more]
    rfl

/-- At the end of the stream a read that is waiting comes back, if the stream has one. -/
private theorem advance_drained {expected : Nat} (inv : l.Inv D ending)
    (reading : l.control = .suspended (.read expected)) (drained : l.socket.incoming = []) :
    ∃ events l', Execution.run (SelectLoop.step D) l events = some l' ∧
      l'.progress = D.blocks.feedStep (ending.map Ending.error) l.progress := by
  cases ends : l.socket.ending with
  | none =>
    refine ⟨[], l, rfl, ?_⟩
    rw [feedStep_drained inv reading drained, ← inv.ending, ends]
    rfl
  | some e =>
    obtain ⟨_, fed⟩ := settle_end inv reading drained ends
    cases e with
    | closed =>
      have delivers : l.socket.Delivers l.room 0 :=
        ⟨Nat.zero_le _, Nat.zero_le _, fun _ => .inr ⟨drained, ends⟩⟩
      refine ⟨[.read 0], l.settle (l.reader, .ready (.error Ending.closed.error)), ?_, fed⟩
      simp only [Execution.run_cons, SelectLoop.step, reading, delivers, if_true,
        NoiseReadHalf.received, List.take_zero, List.drop_zero]
      rfl
    | failed =>
      refine ⟨[.readFailed], _, ?_, fed⟩
      simp only [Execution.run_cons, SelectLoop.step, reading, drained, ends, and_self, if_true]
      rfl

private theorem step_read {n expected : Nat} (reading : l.control = .suspended (.read expected))
    (some_ : 0 < n) (fits : n ≤ l.room) (delivered : n ≤ l.socket.incoming.length) :
    l.step D (.read n) = some ((arrived l n).settle ((arrived l n).reader.fill D expected)) := by
  have delivers : l.socket.Delivers l.room n := ⟨fits, delivered, by omega⟩
  simp only [SelectLoop.step, reading, delivers, if_true]
  rw [← reading, settle_received some_ delivered]

/-- A future that waits gets its block by one read, or what is left of the stream and its end. -/
private theorem advance_reading {expected : Nat} (inv : l.Inv D ending)
    (reading : l.control = .suspended (.read expected)) :
    ∃ events l', Execution.run (SelectLoop.step D) l events = some l' ∧
      l'.progress = D.blocks.feedStep (ending.map Ending.error) l.progress := by
  obtain ⟨rfl, full, short⟩ := inv.reading expected reading
  have running := running_of reading nofun
  have room : l.reader.bytesRead + l.room = l.reader.buf.length := by
    rw [SelectLoop.room]
    omega
  -- one read fills the block, or the stream ends before
  by_cases enough : l.room ≤ l.socket.incoming.length
  · obtain ⟨length, same⟩ := arrived_spec room.le enough
    have filled : D.writableLen l.reader.decoder ≤ l.reader.bytesRead + l.room :=
      (full.symm.trans room.symm).le
    obtain ⟨_, fed⟩ :=
      settle_fill_full (l := arrived l l.room) inv.ending (length.trans full) filled
    rw [same, ← progress_eq_open running] at fed
    refine ⟨[.read l.room], _, ?_, fed⟩
    rw [Execution.run_cons, step_read reading (by omega) le_rfl enough]
    rfl
  · rcases Nat.eq_zero_or_pos l.socket.incoming.length with none_ | some_
    · exact advance_drained inv reading (List.length_eq_zero_iff.mp none_)
    · obtain ⟨length, same⟩ :=
        arrived_spec (l := l) (n := l.socket.incoming.length) (by omega) le_rfl
      have short' : l.reader.bytesRead + l.socket.incoming.length <
          D.writableLen l.reader.decoder := by
        omega
      obtain ⟨inv', waits⟩ := settle_fill_short (l := arrived l l.socket.incoming.length)
        inv.ending (length.trans full) short'
      rw [waits] at inv'
      obtain ⟨later, l', ran, fed⟩ := advance_drained inv' rfl List.drop_length
      refine ⟨.read l.socket.incoming.length :: later, l', ?_, ?_⟩
      · rw [Execution.run_cons, step_read reading some_ (by omega) le_rfl]
        exact (congrArg (Execution.run (SelectLoop.step D) · later) waits).trans ran
      · rw [fed, progress_eq_open running, ← same]
        rfl

private theorem advance_top (event : LoopEvent) (inv : l.Inv D ending)
    (running : l.control ≠ .closed)
    (stepped : l.step D event = some (l.settle (l.reader.readFrame D))) :
    ∃ events l', Execution.run (SelectLoop.step D) l events = some l' ∧
      l'.progress = D.blocks.feedStep (ending.map Ending.error) l.progress := by
  obtain ⟨decoder, socket, full, same, polled⟩ := fitted_spec inv.whole
  have ends : (fitted D l).socket.ending = ending := by rw [socket, inv.ending]
  rw [polled] at stepped
  rw [← decoder] at full stepped
  rw [progress_eq_open running, ← same]
  -- the first poll waits for a read, or the buffer was already full
  by_cases short : (fitted D l).reader.bytesRead < D.writableLen (fitted D l).reader.decoder
  · obtain ⟨inv', waits⟩ := settle_fill_short ends full short
    rw [waits] at inv' stepped
    obtain ⟨later, l', ran, fed⟩ := advance_reading inv' rfl
    refine ⟨event :: later, l', ?_, fed⟩
    rw [Execution.run_cons, stepped, Option.bind_some, ran]
  · obtain ⟨_, fed⟩ := settle_fill_full ends full (Nat.not_lt.mp short)
    refine ⟨[event], _, ?_, fed⟩
    rw [Execution.run_cons, stepped]
    rfl

/-- From any state the loop can go on to the next block. -/
theorem SelectLoop.advance (inv : l.Inv D ending) :
    ∃ events l', Execution.run (SelectLoop.step D) l events = some l' ∧
      l'.progress = D.blocks.feedStep (ending.map Ending.error) l.progress := by
  cases control : l.control with
  | idle =>
    have running := running_of control nofun
    exact advance_top .call inv running (if_pos control)
  | suspended await =>
    cases await with
    | read expected => exact advance_reading inv control
    | yieldNow =>
      have running := running_of control nofun
      exact advance_top .wake inv running (if_pos control)
  | closed =>
    refine ⟨[], l, rfl, ?_⟩
    exact (BlockDecoder.feedStep_ended (decide_eq_true control)).symm
  | panicked => exact absurd control inv.sound

end Spec

/-- For every stream, every split of it into reads and every set of points at which the future is
dropped, the calls have returned what the decoder gives for some number of blocks of the stream,
and what they read is what those blocks leave. They have returned all of it once the loop has
finished, and until then it can go on to any later block. -/
theorem read_frame_uninterrupted (D : NoiseDecoder δ φ) (decoder : δ) (socket : Socket)
    {events : List LoopEvent} {l : SelectLoop δ φ}
    (ran : Execution.run (SelectLoop.step D) (.new decoder socket) events = some l) :
    l.control ≠ .panicked ∧ ∃ blocks,
      let fed := D.blocks.fed (socket.ending.map Ending.error) decoder socket.incoming
      l.progress = fed blocks ∧
        (∀ more, blocks ≤ more → l.returned <+: (fed more).results) ∧
        (l.Finished → ∀ more, blocks ≤ more → (fed more).results = l.returned) ∧
        ∀ more, blocks ≤ more → ∃ later l', Execution.run (SelectLoop.step D) l later = some l' ∧
          l'.progress = fed more := by
  have init : (SelectLoop.new decoder socket : SelectLoop δ φ).Inv D socket.ending :=
    ⟨rfl, .inl rfl, nofun, nofun⟩
  obtain ⟨inv, blocks, simulated⟩ := Execution.run_simulates
    (fun l event l' inv stepped => SelectLoop.step_simulates inv stepped) init ran
  have reached : l.progress = D.blocks.fed (socket.ending.map Ending.error) decoder
      socket.incoming blocks := simulated
  refine ⟨inv.sound, blocks, reached, ?_, ?_, ?_⟩
  · intro more le
    have returned : l.returned = l.progress.results := rfl
    rw [returned, reached]
    exact BlockDecoder.fed_prefix le
  · intro finished more le
    have fixed := SelectLoop.finished_fixed inv finished
    rw [reached] at fixed
    rw [BlockDecoder.fed_fixed le fixed]
    exact (congrArg BlockDecoder.Feed.results reached).symm
  · intro more le
    -- the loop goes on block by block
    obtain ⟨further, rfl⟩ := Nat.exists_eq_add_of_le' le
    obtain ⟨later, l', continued, fed⟩ := Execution.run_catches_up
      (fun l event l' inv stepped => (SelectLoop.step_simulates inv stepped).1)
      (fun l inv => SelectLoop.advance inv) inv further
    refine ⟨later, l', continued, ?_⟩
    rw [fed, reached, BlockDecoder.fed, ← Function.iterate_add_apply]
    rfl

/-! ### A connection that was interrupted -/

/-- A decoder of frames in plain text, in the lengths of the encrypted ones: a header and a tag
of 16 bytes, then a payload, if there is one, and its tag. -/
structure PlainDecoder where
  missing : Nat
  noiseBuffer : List UInt8
  header : Option (List UInt8)

/-- The length of a payload with its tag. -/
def encryptedLen (header : List UInt8) : Nat :=
  match header with
  | [_, _, _, a, b, c] =>
    let len := a.toNat + 256 * b.toNat + 65536 * c.toNat
    if len = 0 then 0 else len + 16
  | _ => 0

def plainDecoder : NoiseDecoder PlainDecoder (List UInt8) where
  writableLen d := d.missing
  write d bytes := { d with noiseBuffer := d.noiseBuffer ++ bytes }
  nextFrame d :=
    let expected := (d.header.map encryptedLen).getD 22
    let hint := expected - d.noiseBuffer.length
    if hint ≠ 0 then (.error (.missingBytes hint), { d with missing := hint })
    else
      match d.header with
      | none =>
        let header := d.noiseBuffer.take 6
        (.error (.missingBytes (encryptedLen header)), ⟨encryptedLen header, [], some header⟩)
      | some header =>
        (.ok (header ++ d.noiseBuffer.take (encryptedLen header - 16)), ⟨22, [], none⟩)

/-- A frame with a payload of two bytes and one without, after which the peer hangs up. -/
def plainSocket : Socket where
  incoming := [0, 0, 0x1a, 2, 0, 0] ++ List.replicate 16 0 ++ [7, 8] ++ List.replicate 16 0 ++
    ([0, 0, 0x1b, 0, 0, 0] ++ List.replicate 16 0)
  ending := some .closed

/-- Dropped at the first yield, within the first header, and at the yield after it. -/
def interrupted : List LoopEvent :=
  [.call, .drop, .call, .read 5, .drop, .call, .read 17, .drop, .call, .read 18, .call, .read 1,
    .read 21, .wake, .call, .read 0]

/-- Both frames arrive, and then the error. -/
theorem read_frame_uninterrupted_thrice : ∃ l : SelectLoop PlainDecoder (List UInt8),
    Execution.run (SelectLoop.step plainDecoder) (.new ⟨0, [], none⟩ plainSocket) interrupted =
        some l ∧
      l.returned = [.ok [0, 0, 0x1a, 2, 0, 0, 7, 8], .ok [0, 0, 0x1b, 0, 0, 0],
        .error "connection closed"] ∧
      ∃ blocks, ∀ more, blocks ≤ more → (plainDecoder.blocks.fed (some "connection closed")
        ⟨0, [], none⟩ plainSocket.incoming more).results = l.returned := by
  obtain ⟨l, ran, returned, closed⟩ : ∃ l : SelectLoop PlainDecoder (List UInt8),
      Execution.run (SelectLoop.step plainDecoder) (.new ⟨0, [], none⟩ plainSocket) interrupted =
          some l ∧
        l.returned = [.ok [0, 0, 0x1a, 2, 0, 0, 7, 8], .ok [0, 0, 0x1b, 0, 0, 0],
          .error "connection closed"] ∧ l.control = .closed := ⟨_, rfl, rfl, rfl⟩
  obtain ⟨_, blocks, _, _, complete, _⟩ :=
    read_frame_uninterrupted plainDecoder ⟨0, [], none⟩ plainSocket ran
  exact ⟨l, ran, returned, blocks, complete (.inl closed)⟩

end MiningPool
