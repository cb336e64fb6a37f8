import MiningPool.Db.Event
import MiningPool.Library.Execution
import MiningPool.Library.Handler
import MiningPool.Library.KeyedTable
import MiningPool.NodeIpc
import MiningPool.Stratum.Target

/-!
# The SV2 connection

The state of one connection, its message handlers, and the connection as a machine
whose inputs are received frames and template changes. Handlers follow
`stratum_sv2.rs` statement by statement; log lines are left out.
-/

namespace MiningPool

open Bitcoin

/-! ### State -/

structure JobInfo where
  jobId : UInt32
  templateId : Nat
  coinb1 : List UInt8
  coinb2 : List UInt8
  merklePath : List (Bytes 32)
  prevHash : Bytes 32
  nbits : UInt32
  ntime : UInt32
  version : UInt32
deriving DecidableEq

structure ChannelInfo where
  channelId : UInt32
  extranoncePrefix : Bytes 32
  minerAddress : String
  currentJob : Option JobInfo
  channelTargetBe : Bytes 32
deriving DecidableEq

structure ConnectionState where
  nextChannelId : UInt32
  nextJobId : UInt32
  channels : KeyedTable UInt32 ChannelInfo
  poolAddress : String
deriving DecidableEq

def ConnectionState.new (poolAddress : String) : ConnectionState :=
  ⟨0, 1, KeyedTable.empty, poolAddress⟩

/-- `channels.get_mut(&id).unwrap().current_job = Some(job)`. -/
def ConnectionState.setCurrentJob (s : ConnectionState) (id : UInt32) (job : JobInfo) :
    ConnectionState :=
  { s with channels := s.channels.modify id fun ch => { ch with currentJob := some job } }

/-- What a handler does to the rest of the pool. The header beside a solution or a credit
is not sent: it is the one the handler hashed, and says what the effect is for. -/
inductive Effect
  | wire (m : Message)
  | solution (sol : SubmitSolutionData) (header : Header)
  | credit (event : ShareEvent) (header : Header)
  | connected (address : String) (timestamp : Int)
deriving DecidableEq

abbrev ConnectionM := Handler ConnectionState Effect

/-- Ids count up in 32 bits and wrap, as in a release build. -/
def allocChannelId : ConnectionM UInt32 := do
  let state ← Handler.getState
  Handler.modifyState fun s => { s with nextChannelId := s.nextChannelId + 1 }
  return state.nextChannelId

def allocJobId : ConnectionM UInt32 := do
  let state ← Handler.getState
  Handler.modifyState fun s => { s with nextJobId := s.nextJobId + 1 }
  return state.nextJobId

/-! ### Job construction -/

def buildJobMessages (X : Externals) (channel : ChannelInfo) (jobId : UInt32) (raw : RawTemplate) :
    Except String (SetNewPrevHash × NewExtendedMiningJob × JobInfo) := do
  let nt := raw.newTemplate
  let snph := raw.setNewPrevHash
  let minerScript ← scriptFromAddress X channel.minerAddress
  let useSegwit := decide (nt.coinbaseTxOutputsCount > 0)
  let parts := buildSv2CoinbaseFromTdp nt.coinbasePrefix.val nt.coinbaseTxVersion
    nt.coinbaseTxInputSequence nt.coinbaseTxValueRemaining nt.coinbaseTxOutputsCount
    nt.coinbaseTxOutputs.val nt.coinbaseTxLocktime minerScript useSegwit
  let coinbaseTxPrefix ← BoundedBytes.tryFrom "coinbase prefix" parts.coinb1
  let coinbaseTxSuffix ← BoundedBytes.tryFrom "coinbase suffix" parts.coinb2
  let miningSnph : SetNewPrevHash :=
    { channelId := channel.channelId
      jobId
      prevHash := snph.prevHash
      minNtime := snph.headerTimestamp
      nbits := snph.nBits }
  let job : NewExtendedMiningJob :=
    { channelId := channel.channelId
      jobId
      minNtime := none
      version := nt.version
      versionRollingAllowed := true
      merklePath := nt.merklePath
      coinbaseTxPrefix
      coinbaseTxSuffix }
  let jobInfo : JobInfo :=
    { jobId
      templateId := nt.templateId
      coinb1 := parts.coinb1
      coinb2 := parts.coinb2
      merklePath := nt.merklePath.val
      prevHash := snph.prevHash
      nbits := snph.nBits
      ntime := snph.headerTimestamp
      version := nt.version }
  return (miningSnph, job, jobInfo)

/-! ### Opening a channel -/

/-- The part of a user identity before the first dot, if it is an address. -/
def parseMinerAddress (X : Externals) (userIdentity poolAddress : String) : String :=
  let candidate := String.ofList (userIdentity.toList.takeWhile (· ≠ '.'))
  match scriptFromAddress X candidate with
  | .ok _ => candidate
  | .error _ => poolAddress

/-- The channel id in its first four bytes, and zeros. -/
def extranoncePrefixOf (channelId : UInt32) : Bytes 32 :=
  ⟨Bytes.toLE 4 channelId.toNat ++ List.replicate 28 0, by simp⟩

/-- The target from the declared hash rate, never harder than the network's. -/
def openingTarget (nominalHashRate nBits : UInt32) : Bytes 32 :=
  let channelTargetBe := hashrateToTargetBe nominalHashRate
  let networkTargetBe := compactToTargetBe nBits
  if networkTargetBe.data > channelTargetBe.data then networkTargetBe else channelTargetBe

def handleOpenExtendedMiningChannel (X : Externals) (msg : OpenExtendedMiningChannel)
    (template : RawTemplate) (now : Int) (dbTx : Bool) : ConnectionM Unit := do
  let state ← Handler.getState
  let minerAddress := parseMinerAddress X msg.userIdentity state.poolAddress
  let channelId ← allocChannelId
  let extranoncePrefix := extranoncePrefixOf channelId
  let channelTargetBe := openingTarget msg.nominalHashRate template.setNewPrevHash.nBits
  Handler.write (.wire (.openExtendedMiningChannelSuccess
    { requestId := msg.requestId
      channelId
      target := targetBeToSv2 channelTargetBe
      extranonceSize := UInt16.ofNat sv2Extranonce2Size
      extranoncePrefix := ⟨extranoncePrefix.data, extranoncePrefix.size.le⟩
      groupChannelId := 0 })) "send OpenExtendedMiningChannelSuccess"
  let channel : ChannelInfo :=
    { channelId, extranoncePrefix, minerAddress, currentJob := none, channelTargetBe }
  Handler.modifyState fun s => { s with channels := s.channels.insert channelId channel }
  let jobId ← allocJobId
  let (prevHash, job, jobInfo) ← Handler.ofExcept (buildJobMessages X channel jobId template)
  Handler.modifyState fun s => s.setCurrentJob channelId jobInfo
  Handler.write (.wire (.newExtendedMiningJob job)) "send NewExtendedMiningJob"
  Handler.write (.wire (.setNewPrevHash prevHash)) "send SetNewPrevHash"
  if dbTx then
    Handler.emit (.connected minerAddress now)

/-! ### Job broadcast -/

/-- The loop over the keys of the channel map, which come in any order. -/
def sendJobsToAllChannels (X : Externals) (template : RawTemplate) (jobId : UInt32) :
    List UInt32 → ConnectionM Unit
  | [] => pure ()
  | channelId :: channelIds => do
    let state ← Handler.getState
    -- `get(..).unwrap()` on a key of the map
    let channel ← Handler.ofExcept (orError "unwrap" (state.channels.get? channelId))
    let (prevHash, job, jobInfo) ← Handler.ofExcept (buildJobMessages X channel jobId template)
    Handler.modifyState fun s => s.setCurrentJob channelId jobInfo
    Handler.write (.wire (.newExtendedMiningJob job)) "send NewExtendedMiningJob on template update"
    Handler.write (.wire (.setNewPrevHash prevHash)) "send SetNewPrevHash on template update"
    sendJobsToAllChannels X template jobId channelIds

/-- The `changed()` branch of the connection loop. -/
def templateChanged (X : Externals) (template : RawTemplate) (order : List UInt32) :
    ConnectionM Unit := do
  let jobId ← allocJobId
  sendJobsToAllChannels X template jobId order

/-! ### Share submission -/

def sendSharesError (channelId sequenceNumber : UInt32) (errorCode : ShareErrorCode) :
    ConnectionM Unit :=
  Handler.write (.wire (.submitSharesError { channelId, sequenceNumber, errorCode }))
    "send SubmitSharesError"

/-- `coinb1 || extranonce_prefix || extranonce2 || coinb2`. -/
def shareCoinbase (channel : ChannelInfo) (job : JobInfo) (ext2 : List UInt8) : List UInt8 :=
  job.coinb1 ++ (buildFullExtranonce channel.extranoncePrefix ext2).data ++ job.coinb2

def shareHeader (X : Externals) (job : JobInfo) (coinbaseTx : Transaction)
    (share : SubmitSharesExtended) : Header :=
  { version := share.version
    prevBlockhash := job.prevHash
    merkleRoot := foldBranch X.sha256d (computeTxid X.sha256d coinbaseTx) job.merklePath
    time := share.ntime
    bits := job.nbits
    nonce := share.nonce }

/-- A block hash as it is displayed: reversed, in lowercase hex. -/
def displayHash (hash : Bytes 32) : List Char := Bytes.hexEncode hash.reverse.data

/-- The steps after the header is known: verdict, solution, reply and credit. -/
def judgeShare (X : Externals) (channel : ChannelInfo) (job : JobInfo)
    (share : SubmitSharesExtended) (coinbase : List UInt8) (header : Header) (dbTx : Bool) :
    ConnectionM Unit := do
  let blockHash := displayHash (header.blockHash X.sha256d)
  let channelTargetHex := Bytes.hexEncode channel.channelTargetBe.data
  let networkTargetHex := compactToTargetHex job.nbits
  if blockHash > channelTargetHex then
    sendSharesError share.channelId share.sequenceNumber .difficultyTooLow
  else
    if blockHash ≤ networkTargetHex then
      -- the result of the send is ignored
      Handler.emit (.solution
        { templateId := job.templateId
          version := share.version
          headerTimestamp := share.ntime
          headerNonce := share.nonce
          coinbaseTx := coinbase } header)
    Handler.write (.wire (.submitSharesSuccess
      { channelId := share.channelId
        lastSequenceNumber := share.sequenceNumber
        newSubmitsAcceptedCount := 1
        newSharesSum := 1 })) "send SubmitSharesSuccess"
    let hashBe := (header.blockHash X.sha256d).reverse
    if dbTx then
      Handler.emit (.credit
        { minerAddress := channel.minerAddress
          difficulty := hashToDifficulty hashBe
          blockHashBe := hashBe
          timestamp := share.ntime.toNat } header)

def handleSubmitSharesExtended (X : Externals) (share : SubmitSharesExtended) (dbTx : Bool) :
    ConnectionM Unit := do
  let state ← Handler.getState
  match state.channels.get? share.channelId with
  -- an unknown channel is only logged
  | none => return ()
  | some channel =>
    match channel.currentJob with
    | none => sendSharesError share.channelId share.sequenceNumber .staleShareBeforeActivation
    | some job =>
      if job.jobId ≠ share.jobId then
        sendSharesError share.channelId share.sequenceNumber .staleShareBeforeActivation
      else
        let coinbase := shareCoinbase channel job share.extranonce.val
        match deserialize coinbase with
        -- so is a coinbase that does not parse
        | none => return ()
        | some coinbaseTx =>
          judgeShare X channel job share coinbase (shareHeader X job coinbaseTx share) dbTx

/-! ### The connection -/

/-- A frame after its payload was parsed; `none` is a payload that does not parse. -/
inductive Frame
  | handShake
  | headerless
  | openExtendedMiningChannel (payload : Option OpenExtendedMiningChannel)
  | submitSharesExtended (payload : Option SubmitSharesExtended)
  | other (msgType : UInt8)
deriving DecidableEq

def dispatchMessage (X : Externals) (frame : Frame) (template : RawTemplate) (now : Int)
    (dbTx : Bool) : ConnectionM Unit :=
  match frame with
  | .handShake => Handler.fail "unexpected HandShake frame in transport mode"
  | .headerless => Handler.fail "frame missing header"
  | .openExtendedMiningChannel none => Handler.fail "OpenExtendedMiningChannel parse error"
  | .openExtendedMiningChannel (some msg) =>
    handleOpenExtendedMiningChannel X msg template now dbTx
  | .submitSharesExtended none => Handler.fail "SubmitSharesExtended parse error"
  | .submitSharesExtended (some share) => handleSubmitSharesExtended X share dbTx
  | .other _ => pure ()

/-- What the connection loop selects: a frame, handled under the template then current,
or a new template. -/
inductive Input
  | frame (frame : Frame) (template : RawTemplate) (now : Int) (socket : List Bool)
  | templateChanged (template : RawTemplate) (order : List UInt32) (socket : List Bool)

/-- A connection past its setup, with all its effects so far. -/
structure Connection where
  state : ConnectionState
  effects : List Effect
  live : Bool
deriving DecidableEq

namespace Connection

def new (poolAddress : String) : Connection := ⟨ConnectionState.new poolAddress, [], true⟩

/-- Run a handler on the connection. -/
def handle (c : Connection) (socket : List Bool) (x : ConnectionM Unit) :
    Except String Unit × World ConnectionState Effect :=
  x ⟨c.state, c.effects, socket⟩

/-- The handler an input calls, and what it says about the coming writes. -/
def handlerOf (X : Externals) (dbTx : Bool) : Input → List Bool × ConnectionM Unit
  | .frame frame template now socket => (socket, dispatchMessage X frame template now dbTx)
  | .templateChanged template order socket => (socket, MiningPool.templateChanged X template order)

/-- An error in a frame ends the connection; an error in a broadcast is only logged. -/
def step (X : Externals) (dbTx : Bool) (c : Connection) (i : Input) : Option Connection :=
  if !c.live then none
  else
    let (result, w) := c.handle (handlerOf X dbTx i).1 (handlerOf X dbTx i).2
    match i with
    | .frame .. => some ⟨w.state, w.effects, result.isOk⟩
    | .templateChanged _ order _ =>
      if order.Perm c.state.channels.keys then some ⟨w.state, w.effects, true⟩ else none

/-- The connection after some inputs. -/
def run (X : Externals) (dbTx : Bool) (c : Connection) (is : List Input) : Option Connection :=
  Execution.run (step X dbTx) c is

/-- The handler that the input calls returns without an error: every job is built and
every write goes through. -/
def Succeeds (X : Externals) (dbTx : Bool) (c : Connection) (i : Input) : Prop :=
  (c.handle (handlerOf X dbTx i).1 (handlerOf X dbTx i).2).1 = .ok ()

instance (X : Externals) (dbTx : Bool) (c : Connection) (i : Input) :
    Decidable (Succeeds X dbTx c i) :=
  match result : (c.handle (handlerOf X dbTx i).1 (handlerOf X dbTx i).2).1 with
  | .ok () => isTrue result
  | .error _ => isFalse fun h => by rw [Succeeds, result] at h; cases h

end Connection

end MiningPool
