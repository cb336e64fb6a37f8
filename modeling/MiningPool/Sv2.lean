import MiningPool.Bitcoin.Header

/-!
# SV2 data

The message types of the Template Distribution and Mining protocols, with the size
limits their fields carry. A field that is too long is refused when it is built.
-/

namespace MiningPool

open Bitcoin

/-! ### Fallible construction -/

/-- `ok_or`: the error `msg` in place of nothing. -/
def orError {α : Type} (msg : String) : Option α → Except String α
  | some a => .ok a
  | none => .error msg

@[simp] theorem orError_eq_ok {α : Type} {msg : String} {o : Option α} {a : α} :
    orError msg o = .ok a ↔ o = some a := by
  cases o <;> simp [orError]

theorem bind_eq_ok {α β : Type} {x : Except String α} {f : α → Except String β} {b : β} :
    x >>= f = .ok b ↔ ∃ a, x = .ok a ∧ f a = .ok b := by
  cases x <;> simp [bind, Except.bind]

/-- A byte string with a one or two byte length before it on the wire. -/
abbrev BoundedBytes (n : Nat) := {bs : List UInt8 // bs.length ≤ n}

abbrev B032 := BoundedBytes 32
abbrev B0255 := BoundedBytes 255
abbrev B064K := BoundedBytes 65535

/-- `try_from`, with the name the caller puts before the error. -/
def BoundedBytes.tryFrom {n : Nat} (what : String) (bs : List UInt8) :
    Except String (BoundedBytes n) :=
  if h : bs.length ≤ n then .ok ⟨bs, h⟩ else .error what

theorem BoundedBytes.tryFrom_eq_ok {n : Nat} {what : String} {bs : List UInt8}
    {b : BoundedBytes n} : tryFrom what bs = .ok b ↔ b.val = bs := by
  unfold tryFrom
  split
  next h =>
    rw [Except.ok.injEq]
    exact ⟨fun e => by rw [← e], fun e => Subtype.ext e.symm⟩
  next h =>
    constructor
    · intro e
      cases e
    · intro e
      exact absurd (e ▸ b.property) h

abbrev Seq0255 (α : Type) := {xs : List α // xs.length ≤ 255}

def Seq0255.tryNew {α : Type} (what : String) (xs : List α) : Except String (Seq0255 α) :=
  if h : xs.length ≤ 255 then .ok ⟨xs, h⟩ else .error what

theorem Seq0255.tryNew_eq_ok {α : Type} {what : String} {xs : List α} {s : Seq0255 α} :
    tryNew what xs = .ok s ↔ s.val = xs := by
  unfold tryNew
  split
  next h =>
    rw [Except.ok.injEq]
    exact ⟨fun e => by rw [← e], fun e => Subtype.ext e.symm⟩
  next h =>
    constructor
    · intro e
      cases e
    · intro e
      exact absurd (e ▸ s.property) h

/-! ### Template Distribution -/

namespace TemplateDistribution

/-- A template id is a 64-bit count of templates, which no run exhausts. -/
structure NewTemplate where
  templateId : Nat
  futureTemplate : Bool
  version : UInt32
  coinbaseTxVersion : UInt32
  coinbasePrefix : B0255
  coinbaseTxInputSequence : UInt32
  coinbaseTxValueRemaining : UInt64
  coinbaseTxOutputsCount : UInt32
  coinbaseTxOutputs : B064K
  coinbaseTxLocktime : UInt32
  merklePath : Seq0255 (Bytes 32)
deriving DecidableEq

structure SetNewPrevHash where
  templateId : Nat
  prevHash : Bytes 32
  headerTimestamp : UInt32
  nBits : UInt32
  target : Bytes 32
deriving DecidableEq

end TemplateDistribution

/-! ### Mining -/

/-- `userIdentity` is the text the server reads (`as_utf8_or_hex`), and `nominalHashRate`
the bit pattern of the 32-bit float. -/
structure OpenExtendedMiningChannel where
  requestId : UInt32
  userIdentity : String
  nominalHashRate : UInt32
  maxTarget : Bytes 32
  minExtranonceSize : UInt16
deriving DecidableEq

structure OpenExtendedMiningChannelSuccess where
  requestId : UInt32
  channelId : UInt32
  target : Bytes 32
  extranonceSize : UInt16
  extranoncePrefix : B032
  groupChannelId : UInt32
deriving DecidableEq

structure NewExtendedMiningJob where
  channelId : UInt32
  jobId : UInt32
  minNtime : Option UInt32
  version : UInt32
  versionRollingAllowed : Bool
  merklePath : Seq0255 (Bytes 32)
  coinbaseTxPrefix : B064K
  coinbaseTxSuffix : B064K
deriving DecidableEq

structure SetNewPrevHash where
  channelId : UInt32
  jobId : UInt32
  prevHash : Bytes 32
  minNtime : UInt32
  nbits : UInt32
deriving DecidableEq

structure SubmitSharesExtended where
  channelId : UInt32
  sequenceNumber : UInt32
  jobId : UInt32
  nonce : UInt32
  ntime : UInt32
  version : UInt32
  extranonce : B032
deriving DecidableEq

structure SubmitSharesSuccess where
  channelId : UInt32
  lastSequenceNumber : UInt32
  newSubmitsAcceptedCount : UInt32
  newSharesSum : UInt64
deriving DecidableEq

inductive ShareErrorCode
  | staleShareBeforeActivation
  | difficultyTooLow
deriving DecidableEq

def ShareErrorCode.text : ShareErrorCode → String
  | staleShareBeforeActivation => "stale-share-before-activation"
  | difficultyTooLow => "difficulty-too-low"

structure SubmitSharesError where
  channelId : UInt32
  sequenceNumber : UInt32
  errorCode : ShareErrorCode
deriving DecidableEq

/-- What the server sends on an open connection. -/
inductive Message
  | openExtendedMiningChannelSuccess (m : OpenExtendedMiningChannelSuccess)
  | newExtendedMiningJob (m : NewExtendedMiningJob)
  | setNewPrevHash (m : SetNewPrevHash)
  | submitSharesSuccess (m : SubmitSharesSuccess)
  | submitSharesError (m : SubmitSharesError)
deriving DecidableEq

end MiningPool
