import MiningPool.Stratum.Connection

/-!
# Setting up a connection

The first frame of a connection, as `handle_setup_connection` answers it, and the frames
after it, as `dispatch_message` tells them apart. The message types and the payload parsers
are those of the SV2 crates and are left open.
-/

namespace MiningPool

/-! ### Frames -/

inductive Protocol
  | miningProtocol
  | jobDeclarationProtocol
  | templateDistributionProtocol
deriving DecidableEq

/-- As an error message shows it. -/
def Protocol.debug : Protocol → String
  | miningProtocol => "MiningProtocol"
  | jobDeclarationProtocol => "JobDeclarationProtocol"
  | templateDistributionProtocol => "TemplateDistributionProtocol"

structure SetupConnection where
  protocol : Protocol
  minVersion : UInt16
  maxVersion : UInt16
deriving DecidableEq

structure SetupConnectionSuccess where
  usedVersion : UInt16
  flags : UInt32
deriving DecidableEq

inductive SetupErrorCode
  | unsupportedMessage
  | unsupportedProtocol
  | protocolVersionMismatch
deriving DecidableEq

def SetupErrorCode.text : SetupErrorCode → String
  | unsupportedMessage => "unsupported-message"
  | unsupportedProtocol => "unsupported-protocol"
  | protocolVersionMismatch => "protocol-version-mismatch"

structure SetupConnectionError where
  flags : UInt32
  errorCode : SetupErrorCode
deriving DecidableEq

/-- What the server sends during setup. -/
inductive SetupReply
  | setupConnectionSuccess (m : SetupConnectionSuccess)
  | setupConnectionError (m : SetupConnectionError)
deriving DecidableEq

/-- A decrypted frame. `get_header` may find no header in it. -/
inductive EitherFrame
  | handShake
  | sv2 (msgType : Option UInt8) (payload : List UInt8)
deriving DecidableEq

/-- The message types of a client, and `binary_sv2::from_bytes` at their payloads. -/
structure Sv2Codec where
  messageTypeSetupConnection : UInt8
  messageTypeOpenExtendedMiningChannel : UInt8
  messageTypeSubmitSharesExtended : UInt8
  setupConnection : List UInt8 → Option SetupConnection
  openExtendedMiningChannel : List UInt8 → Option OpenExtendedMiningChannel
  submitSharesExtended : List UInt8 → Option SubmitSharesExtended

/-- The message types in the order in which `dispatch_message` tries them. -/
def Sv2Codec.frame (C : Sv2Codec) : EitherFrame → Frame
  | .handShake => .handShake
  | .sv2 none _ => .headerless
  | .sv2 (some msgType) payload =>
    if msgType = C.messageTypeOpenExtendedMiningChannel then
      .openExtendedMiningChannel (C.openExtendedMiningChannel payload)
    else if msgType = C.messageTypeSubmitSharesExtended then
      .submitSharesExtended (C.submitSharesExtended payload)
    else .other msgType

/-! ### `handle_setup_connection` -/

/-- A byte as `{:02x}` shows it. -/
def hexByte (b : UInt8) : String := String.ofList (Bytes.hexEncode [b])

/-- The error is sent, and the connection ends with another one. -/
def refuseSetup (errorCode : SetupErrorCode) (error : String) : Handler Unit SetupReply Unit := do
  Handler.write (.setupConnectionError { flags := 0, errorCode }) "write error"
  Handler.fail error

def handleSetupConnection (C : Sv2Codec) : EitherFrame → Handler Unit SetupReply Unit
  | .handShake => Handler.fail "unexpected HandShake frame after Noise transport"
  | .sv2 none _ => Handler.fail "frame missing header"
  | .sv2 (some msgType) payload =>
    if msgType ≠ C.messageTypeSetupConnection then
      refuseSetup .unsupportedMessage ("expected SetupConnection (0x" ++
        hexByte C.messageTypeSetupConnection ++ "), got 0x" ++ hexByte msgType)
    else do
      let msg ← Handler.ofExcept
        (orError "SetupConnection parse error" (C.setupConnection payload))
      if msg.protocol ≠ .miningProtocol then
        refuseSetup .unsupportedProtocol ("unsupported protocol: " ++ msg.protocol.debug)
      else if msg.minVersion > 2 ∨ msg.maxVersion < 2 then
        refuseSetup .protocolVersionMismatch ("version mismatch: client wants [" ++
          toString msg.minVersion ++ ", " ++ toString msg.maxVersion ++ "], we support 2")
      else
        -- bit 1 of the flags: only extended channels are accepted
        Handler.write (.setupConnectionSuccess { usedVersion := 2, flags := 0x02 })
          "send SetupConnectionSuccess"

/-! ### What a first frame deserves -/

/-- A `SetupConnection` for the mining protocol whose versions include 2. -/
def Sv2Codec.Admits (C : Sv2Codec) (frame : EitherFrame) : Prop :=
  ∃ payload msg, frame = .sv2 (some C.messageTypeSetupConnection) payload ∧
    C.setupConnection payload = some msg ∧ msg.protocol = .miningProtocol ∧
      msg.minVersion ≤ 2 ∧ 2 ≤ msg.maxVersion

/-- The code with which a first frame is refused. The protocol is looked at before the
versions, and what is no message or does not parse is dropped in silence. -/
inductive Sv2Codec.Refuses (C : Sv2Codec) : EitherFrame → SetupErrorCode → Prop
  | message {msgType payload} (other : msgType ≠ C.messageTypeSetupConnection) :
      Refuses C (.sv2 (some msgType) payload) .unsupportedMessage
  | protocol {payload msg} (parsed : C.setupConnection payload = some msg)
      (other : msg.protocol ≠ .miningProtocol) :
      Refuses C (.sv2 (some C.messageTypeSetupConnection) payload) .unsupportedProtocol
  | version {payload msg} (parsed : C.setupConnection payload = some msg)
      (mining : msg.protocol = .miningProtocol)
      (outside : ¬(msg.minVersion ≤ 2 ∧ 2 ≤ msg.maxVersion)) :
      Refuses C (.sv2 (some C.messageTypeSetupConnection) payload) .protocolVersionMismatch

/-- How the handling of a first frame can end, and what it sends. -/
inductive SetUp (C : Sv2Codec) (frame : EitherFrame) : Except String Unit → List SetupReply → Prop
  | admitted (admits : C.Admits frame) :
      SetUp C frame (.ok ()) [.setupConnectionSuccess { usedVersion := 2, flags := 0x02 }]
  | refused {errorCode e} (refuses : C.Refuses frame errorCode) :
      SetUp C frame (.error e) [.setupConnectionError { flags := 0, errorCode }]
  /-- The frame is dropped, or a write fails. -/
  | silent {e} : SetUp C frame (.error e) []

section Spec

variable {C : Sv2Codec} {frame : EitherFrame} {errorCode : SetupErrorCode}

private theorem refuseSetup_setUp (refuses : C.Refuses frame errorCode) (error : String)
    (socket : List Bool) :
    SetUp C frame (refuseSetup errorCode error ⟨(), [], socket⟩).1
      (refuseSetup errorCode error ⟨(), [], socket⟩).2.effects := by
  rw [refuseSetup, Handler.bind_apply]
  rcases Handler.write_cases (SetupReply.setupConnectionError { flags := 0, errorCode })
    "write error" ⟨(), [], socket⟩ with failed | sent
  · rw [failed]
    exact .silent
  · rw [sent]
    exact .refused refuses

/-- Every first frame is admitted, refused or dropped. -/
theorem handleSetupConnection_setUp (C : Sv2Codec) (frame : EitherFrame) (socket : List Bool) :
    SetUp C frame (handleSetupConnection C frame ⟨(), [], socket⟩).1
      (handleSetupConnection C frame ⟨(), [], socket⟩).2.effects := by
  rcases frame with _ | ⟨_ | msgType, payload⟩
  · exact .silent
  · exact .silent
  simp only [handleSetupConnection]
  by_cases setup : msgType = C.messageTypeSetupConnection
  · subst setup
    rw [if_neg (not_not_intro rfl), Handler.bind_apply]
    cases parsed : C.setupConnection payload with
    | none => exact .silent
    | some msg =>
      simp only [orError, Handler.ofExcept]
      -- the branches in the order of the checks
      by_cases mining : msg.protocol = .miningProtocol
      · by_cases versions : msg.minVersion ≤ 2 ∧ 2 ≤ msg.maxVersion
        · have inside : ¬(msg.minVersion > 2 ∨ msg.maxVersion < 2) := by
            simpa only [gt_iff_lt, not_or, UInt16.not_lt] using versions
          rw [if_neg (not_not_intro mining), if_neg inside]
          rcases Handler.write_cases (SetupReply.setupConnectionSuccess ⟨2, 0x02⟩)
            "send SetupConnectionSuccess" ⟨(), [], socket⟩ with failed | sent
          · rw [failed]
            exact .silent
          · rw [sent]
            exact .admitted ⟨payload, msg, rfl, parsed, mining, versions⟩
        · have outside : msg.minVersion > 2 ∨ msg.maxVersion < 2 := by
            rwa [← not_not (a := _ ∨ _), not_or, gt_iff_lt, UInt16.not_lt, UInt16.not_lt]
          rw [if_neg (not_not_intro mining), if_pos outside]
          exact refuseSetup_setUp (.version parsed mining versions) _ socket
      · rw [if_pos mining]
        exact refuseSetup_setUp (.protocol parsed mining) _ socket
  · rw [if_pos setup]
    exact refuseSetup_setUp (.message setup) _ socket

theorem SetUp.of_ok {replies : List SetupReply} (setUp : SetUp C frame (.ok ()) replies) :
    C.Admits frame ∧
      replies = [.setupConnectionSuccess { usedVersion := 2, flags := 0x02 }] := by
  cases setUp with
  | admitted admits => exact ⟨admits, rfl⟩

end Spec

end MiningPool
