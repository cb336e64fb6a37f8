import MiningPool.Stratum.Connection

/-!
# What the handlers do

One specification for each handler of a connection. The callers below use these and
never unfold a handler.
-/

namespace MiningPool

open Bitcoin

/-! ### Jobs -/

/-- The coinbase halves of a template for a payout script. -/
def jobParts (raw : RawTemplate) (script : Script) : CoinbaseParts :=
  buildSv2CoinbaseFromTdp raw.newTemplate.coinbasePrefix.val raw.newTemplate.coinbaseTxVersion
    raw.newTemplate.coinbaseTxInputSequence raw.newTemplate.coinbaseTxValueRemaining
    raw.newTemplate.coinbaseTxOutputsCount raw.newTemplate.coinbaseTxOutputs.val
    raw.newTemplate.coinbaseTxLocktime script (decide (raw.newTemplate.coinbaseTxOutputsCount > 0))

/-- The job a connection keeps is the one its two messages describe. -/
structure JobInfo.Announced (info : JobInfo) (channelId : UInt32) (job : NewExtendedMiningJob)
    (snph : SetNewPrevHash) : Prop where
  jobChannel : job.channelId = channelId
  snphChannel : snph.channelId = channelId
  jobId : job.jobId = info.jobId
  snphJobId : snph.jobId = info.jobId
  version : job.version = info.version
  merklePath : job.merklePath.val = info.merklePath
  coinb1 : job.coinbaseTxPrefix.val = info.coinb1
  coinb2 : job.coinbaseTxSuffix.val = info.coinb2
  prevHash : snph.prevHash = info.prevHash
  nbits : snph.nbits = info.nbits
  ntime : snph.minNtime = info.ntime

/-- A job takes from its template what a coinbase and a header need. -/
structure JobInfo.Of (raw : RawTemplate) (info : JobInfo) : Prop where
  templateId : info.templateId = raw.newTemplate.templateId
  merklePath : info.merklePath = raw.newTemplate.merklePath.val
  prevHash : info.prevHash = raw.setNewPrevHash.prevHash
  nbits : info.nbits = raw.setNewPrevHash.nBits
  ntime : info.ntime = raw.setNewPrevHash.headerTimestamp
  version : info.version = raw.newTemplate.version
  coinbase : ∃ script, info.coinb1 = (jobParts raw script).coinb1 ∧
    info.coinb2 = (jobParts raw script).coinb2 ∧ info.coinb2.length ≤ 65535

theorem scriptFromAddress_eq_ok {X : Externals} {address : String} {script : Script} :
    scriptFromAddress X address = .ok script ↔ X.addressScript address = some script := by
  unfold scriptFromAddress
  split <;> simp_all

theorem buildJobMessages_ok {X : Externals} {channel : ChannelInfo} {jobId : UInt32}
    {raw : RawTemplate} {snph : SetNewPrevHash} {job : NewExtendedMiningJob} {info : JobInfo}
    (built : buildJobMessages X channel jobId raw = .ok (snph, job, info)) :
    ∃ script, X.addressScript channel.minerAddress = some script ∧
      info.coinb1 = (jobParts raw script).coinb1 ∧ info.coinb2 = (jobParts raw script).coinb2 ∧
      info.jobId = jobId ∧ info.Announced channel.channelId job snph ∧ info.Of raw := by
  simp only [buildJobMessages, bind_eq_ok, BoundedBytes.tryFrom_eq_ok] at built
  obtain ⟨script, known, coinb1, first, coinb2, second, eq⟩ := built
  -- the script must be known and both halves of the coinbase must fit
  cases eq
  exact ⟨script, scriptFromAddress_eq_ok.mp known, rfl, rfl, rfl,
    ⟨rfl, rfl, rfl, rfl, rfl, rfl, first, second, rfl, rfl, rfl⟩,
    ⟨rfl, rfl, rfl, rfl, rfl, rfl, script, rfl, rfl, second ▸ coinb2.property⟩⟩

/-- The job is what `build_job_messages` makes of the template for the channel, under some
job id. -/
def JobInfo.BuiltFor (X : Externals) (channel : ChannelInfo) (raw : RawTemplate)
    (info : JobInfo) : Prop :=
  ∃ snph job, buildJobMessages X channel info.jobId raw = .ok (snph, job, info)

theorem JobInfo.BuiltFor.of_ok {X : Externals} {channel : ChannelInfo} {jobId : UInt32}
    {raw : RawTemplate} {snph : SetNewPrevHash} {job : NewExtendedMiningJob} {info : JobInfo}
    (built : buildJobMessages X channel jobId raw = .ok (snph, job, info)) :
    info.BuiltFor X channel raw := by
  obtain ⟨_, _, _, _, rfl, _⟩ := buildJobMessages_ok built
  exact ⟨snph, job, built⟩

/-! ### Opening a channel -/

theorem allocChannelId_apply (w : World ConnectionState Effect) :
    allocChannelId w = (.ok w.state.nextChannelId,
      { w with state := { w.state with nextChannelId := w.state.nextChannelId + 1 } }) := rfl

theorem allocJobId_apply (w : World ConnectionState Effect) :
    allocJobId w = (.ok w.state.nextJobId,
      { w with state := { w.state with nextJobId := w.state.nextJobId + 1 } }) := rfl

theorem extranoncePrefixOf_injective {id id' : UInt32}
    (same : extranoncePrefixOf id = extranoncePrefixOf id') : id = id' := by
  have bytes := congrArg Bytes.data same
  -- the id is the first four bytes
  have ids := (List.append_inj bytes (by simp)).1
  exact UInt32.toNat_inj.mp (Bytes.toLE_injective 4 _ _ id.toNat_lt id'.toNat_lt ids)

/-- The channel an open request gets. -/
def openedChannel (X : Externals) (s : ConnectionState) (msg : OpenExtendedMiningChannel)
    (template : RawTemplate) : ChannelInfo where
  channelId := s.nextChannelId
  extranoncePrefix := extranoncePrefixOf s.nextChannelId
  minerAddress := parseMinerAddress X msg.userIdentity s.poolAddress
  currentJob := none
  channelTargetBe := openingTarget msg.nominalHashRate template.setNewPrevHash.nBits

/-- The state once that channel is in the table and has a job id. -/
def ConnectionState.opened (X : Externals) (s : ConnectionState) (msg : OpenExtendedMiningChannel)
    (template : RawTemplate) : ConnectionState where
  nextChannelId := s.nextChannelId + 1
  nextJobId := s.nextJobId + 1
  channels := s.channels.insert s.nextChannelId (openedChannel X s msg template)
  poolAddress := s.poolAddress

/-- The answer to an open request. -/
def openSuccess (X : Externals) (s : ConnectionState) (msg : OpenExtendedMiningChannel)
    (template : RawTemplate) : OpenExtendedMiningChannelSuccess where
  requestId := msg.requestId
  channelId := s.nextChannelId
  target := targetBeToSv2 (openedChannel X s msg template).channelTargetBe
  extranonceSize := UInt16.ofNat sv2Extranonce2Size
  extranoncePrefix :=
    ⟨(extranoncePrefixOf s.nextChannelId).data, (extranoncePrefixOf s.nextChannelId).size.le⟩
  groupChannelId := 0

variable {X : Externals} {msg : OpenExtendedMiningChannel} {template : RawTemplate} {now : Int}
  {dbTx : Bool}

/-- Effects that only announce jobs. -/
def Effect.IsJob : Effect → Prop
  | .wire (.newExtendedMiningJob _) => True
  | .wire (.setNewPrevHash _) => True
  | _ => False

theorem handleOpenExtendedMiningChannel_ok {w w' : World ConnectionState Effect}
    (h : handleOpenExtendedMiningChannel X msg template now dbTx w = (.ok (), w')) :
    ∃ snph job info,
      buildJobMessages X (openedChannel X w.state msg template) w.state.nextJobId template =
        .ok (snph, job, info) ∧
      w'.state = (w.state.opened X msg template).setCurrentJob w.state.nextChannelId info ∧
      w'.effects = w.effects ++
        ([.wire (.openExtendedMiningChannelSuccess (openSuccess X w.state msg template)),
          .wire (.newExtendedMiningJob job), .wire (.setNewPrevHash snph)] ++
        if dbTx then [.connected (openedChannel X w.state msg template).minerAddress now]
        else []) := by
  unfold handleOpenExtendedMiningChannel at h
  simp only [Handler.bind_eq_ok, Handler.getState_eq_ok, allocChannelId_apply, allocJobId_apply,
    Handler.modifyState_eq_ok, Handler.ofExcept_eq_ok, Prod.mk.injEq, Except.ok.injEq] at h
  obtain ⟨_, _, ⟨rfl, rfl⟩, _, _, ⟨rfl, rfl⟩, _, _, answered, _, _, rfl, _, _, ⟨rfl, rfl⟩,
    ⟨snph, job, info⟩, _, ⟨built, rfl⟩, _, _, rfl, _, _, sentJob, _, _, sentPrevHash, last⟩ := h
  -- all three writes went through
  obtain rfl := Handler.write_eq_ok answered
  obtain rfl := Handler.write_eq_ok sentJob
  obtain rfl := Handler.write_eq_ok sentPrevHash
  refine ⟨snph, job, info, built, ?_⟩
  -- the greeting is sent only if there is a database
  split at last
  next db =>
    rw [Handler.emit_eq_ok] at last
    subst last
    exact ⟨rfl, by simp [openSuccess, openedChannel, db]⟩
  next db =>
    cases last
    exact ⟨rfl, by simp [openSuccess, openedChannel, db]⟩

/-- Whatever the outcome: the id is taken, the channel is in the table once the success
message went out, and what follows the success message comes in order. -/
theorem handleOpenExtendedMiningChannel_run {w w' : World ConnectionState Effect}
    {result : Except String Unit}
    (ran : handleOpenExtendedMiningChannel X msg template now dbTx w = (result, w')) :
    (w'.effects = w.effects ∧
      w'.state = { w.state with nextChannelId := w.state.nextChannelId + 1 }) ∨
    ∃ added, w'.effects = w.effects ++
        .wire (.openExtendedMiningChannelSuccess (openSuccess X w.state msg template)) :: added ∧
      (added = [] ∨ ∃ job snph address, job.channelId = w.state.nextChannelId ∧
        added <+: [.wire (.newExtendedMiningJob job), .wire (.setNewPrevHash snph),
          .connected address now]) ∧
      (w'.state = w.state.opened X msg template ∨ ∃ info : JobInfo, info.Of template ∧
        w'.state = (w.state.opened X msg template).setCurrentJob w.state.nextChannelId info) := by
  unfold handleOpenExtendedMiningChannel at ran
  simp only [Handler.bind_apply, Handler.getState, allocChannelId_apply, allocJobId_apply,
    Handler.modifyState, Handler.ofExcept] at ran
  -- the first write decides whether the channel exists
  rcases Handler.write_cases _ _ _ with refused | answered
  · rw [refused] at ran
    cases ran
    exact .inl ⟨rfl, rfl⟩
  right
  rw [answered] at ran
  -- a job that cannot be built leaves the channel without one
  rcases built : buildJobMessages X (openedChannel X w.state msg template) w.state.nextJobId
    template with e | ⟨snph, job, info⟩
  · rw [openedChannel] at built
    simp only [built] at ran
    cases ran
    exact ⟨[], rfl, .inl rfl, .inl rfl⟩
  obtain ⟨_, _, _, _, _, announced, sourced⟩ := buildJobMessages_ok built
  have channel : job.channelId = w.state.nextChannelId := announced.jobChannel
  rw [openedChannel] at built
  simp only [built] at ran
  -- the job is recorded before its messages are sent
  rcases Handler.write_cases (Effect.wire (.newExtendedMiningJob job)) _ _ with refused | sentJob
  · rw [refused] at ran
    cases ran
    exact ⟨[], rfl, .inl rfl, .inr ⟨info, sourced, rfl⟩⟩
  rw [sentJob] at ran
  simp only at ran
  rcases Handler.write_cases (Effect.wire (.setNewPrevHash snph)) _ _ with refused | sentPrevHash
  · rw [refused] at ran
    cases ran
    exact ⟨[.wire (.newExtendedMiningJob job)], by simp [openSuccess, openedChannel],
      .inr ⟨job, snph, "", channel, by simp⟩, .inr ⟨info, sourced, rfl⟩⟩
  rw [sentPrevHash] at ran
  simp only at ran
  split at ran
  · cases ran
    exact ⟨[.wire (.newExtendedMiningJob job), .wire (.setNewPrevHash snph),
      .connected (parseMinerAddress X msg.userIdentity w.state.poolAddress) now],
      by simp [openSuccess, openedChannel], .inr ⟨job, snph, _, channel, List.prefix_refl _⟩,
      .inr ⟨info, sourced, rfl⟩⟩
  · cases ran
    exact ⟨[.wire (.newExtendedMiningJob job), .wire (.setNewPrevHash snph)],
      by simp [openSuccess, openedChannel], .inr ⟨job, snph, "", channel, by simp⟩,
      .inr ⟨info, sourced, rfl⟩⟩

/-! ### Job broadcast -/

/-- `s'` differs from `s` in job ids and current jobs only, and each new job is one of `raw`. -/
structure ConnectionState.JobsReplaced (raw : RawTemplate) (s s' : ConnectionState) : Prop where
  nextChannelId : s'.nextChannelId = s.nextChannelId
  poolAddress : s'.poolAddress = s.poolAddress
  channel : ∀ id, s'.channels.get? id = s.channels.get? id ∨
    ∃ ch info, s.channels.get? id = some ch ∧ JobInfo.Of raw info ∧
      s'.channels.get? id = some { ch with currentJob := some info }

namespace ConnectionState.JobsReplaced

variable {raw : RawTemplate} {s t u : ConnectionState}

protected theorem refl (s : ConnectionState) : JobsReplaced raw s s := ⟨rfl, rfl, fun _ => .inl rfl⟩

protected theorem trans (st : JobsReplaced raw s t) (tu : JobsReplaced raw t u) :
    JobsReplaced raw s u where
  nextChannelId := tu.nextChannelId.trans st.nextChannelId
  poolAddress := tu.poolAddress.trans st.poolAddress
  channel := by
    intro id
    rcases tu.channel id with same | ⟨ch, info, found, sourced, eq⟩
    · rw [same]
      exact st.channel id
    right
    rcases st.channel id with same | ⟨ch', info', found', _, eq'⟩
    · exact ⟨ch, info, same ▸ found, sourced, eq⟩
    · rw [eq', Option.some.injEq] at found
      subst found
      exact ⟨ch', info, found', sourced, eq⟩

end ConnectionState.JobsReplaced

theorem setCurrentJob_get? (s : ConnectionState) (id id' : UInt32) (info : JobInfo) :
    (s.setCurrentJob id info).channels.get? id' = (s.channels.get? id').map fun ch =>
      if id' = id then { ch with currentJob := some info } else ch :=
  KeyedTable.get?_modify s.channels id id' _

private theorem setCurrentJob_replaced {raw : RawTemplate} (s : ConnectionState) (id : UInt32)
    {info : JobInfo} (sourced : info.Of raw) : s.JobsReplaced raw (s.setCurrentJob id info) where
  nextChannelId := rfl
  poolAddress := rfl
  channel := by
    intro id'
    rw [setCurrentJob_get?]
    cases found : s.channels.get? id' with
    | none => exact .inl rfl
    | some ch =>
      by_cases same : id' = id
      · exact .inr ⟨ch, info, rfl, sourced, by simp [same]⟩
      · exact .inl (by simp [same])

/-- Channels are under their ids. -/
def ConnectionState.Keyed (s : ConnectionState) : Prop :=
  ∀ id ch, s.channels.get? id = some ch → ch.channelId = id

theorem setCurrentJob_keyed {s : ConnectionState} {first : UInt32} {info : JobInfo}
    (keyed : s.Keyed) : (s.setCurrentJob first info).Keyed := by
  intro id ch found
  rw [setCurrentJob_get?, Option.map_eq_some_iff] at found
  obtain ⟨old, before, rfl⟩ := found
  split <;> exact keyed id old before

/-- One turn of the broadcast loop, for channel `first`. -/
inductive BroadcastTurn (X : Externals) (raw : RawTemplate) (jobId first : UInt32)
    (order : List UInt32) (result : Except String Unit) (w w' : World ConnectionState Effect) : Prop
  /-- The channel is not there, or its job is not built. -/
  | unbuilt (failed : result ≠ .ok ()) (same : w' = w)
  /-- The job is recorded, but a message is not sent. -/
  | unsent {ch snph job info sent} (failed : result ≠ .ok ())
      (found : w.state.channels.get? first = some ch)
      (built : buildJobMessages X ch jobId raw = .ok (snph, job, info))
      (state : w'.state = w.state.setCurrentJob first info)
      (effects : w'.effects = w.effects ++ sent)
      (part : sent = [] ∨ sent = [.wire (.newExtendedMiningJob job)])
  | served {ch snph job info socket} (found : w.state.channels.get? first = some ch)
      (built : buildJobMessages X ch jobId raw = .ok (snph, job, info))
      (rest : sendJobsToAllChannels X raw jobId order
        ⟨w.state.setCurrentJob first info, w.effects ++
          [.wire (.newExtendedMiningJob job), .wire (.setNewPrevHash snph)], socket⟩ = (result, w'))

theorem sendJobsToAllChannels_turn {raw : RawTemplate} {jobId first : UInt32}
    {order : List UInt32} {result : Except String Unit} {w w' : World ConnectionState Effect}
    (ran : sendJobsToAllChannels X raw jobId (first :: order) w = (result, w')) :
    BroadcastTurn X raw jobId first order result w w' := by
  have failed (e : String) : Except.error e ≠ Except.ok () := by
    intro same
    cases same
  unfold sendJobsToAllChannels at ran
  simp only [Handler.bind_apply, Handler.getState, Handler.ofExcept, Handler.modifyState] at ran
  cases found : w.state.channels.get? first with
  | none =>
    rw [found] at ran
    cases ran
    exact .unbuilt (failed _) rfl
  | some ch =>
    rw [found] at ran
    simp only [orError] at ran
    cases built : buildJobMessages X ch jobId raw with
    | error e =>
      rw [built] at ran
      cases ran
      exact .unbuilt (failed _) rfl
    | ok messages =>
      obtain ⟨snph, job, info⟩ := messages
      simp only [built] at ran
      -- the job is recorded by now, and the two writes decide what is said about it
      rcases Handler.write_cases (Effect.wire (.newExtendedMiningJob job)) _ _ with
        refused | sentJob
      · rw [refused] at ran
        cases ran
        exact .unsent (failed _) found built rfl (List.append_nil _).symm (.inl rfl)
      rw [sentJob] at ran
      simp only at ran
      rcases Handler.write_cases (Effect.wire (.setNewPrevHash snph)) _ _ with
        refused | sentPrevHash
      · rw [refused] at ran
        cases ran
        exact .unsent (failed _) found built rfl rfl (.inr rfl)
      rw [sentPrevHash] at ran
      simp only [List.append_assoc, List.cons_append, List.nil_append] at ran
      exact .served found built ran

open Handler ConnectionState in
private theorem sendJobsToAllChannels_moves (template : RawTemplate) (jobId : UInt32)
    (order : List UInt32) :
    Moves (JobsReplaced template) (sendJobsToAllChannels X template jobId order) := by
  have refl : ∀ s, JobsReplaced template s s := JobsReplaced.refl
  have andThen {α β : Type} {x : ConnectionM α} {f : α → ConnectionM β}
      (hx : Moves (JobsReplaced template) x) (hf : ∀ a, Moves (JobsReplaced template) (f a)) :
      Moves (JobsReplaced template) (x >>= f) :=
    Moves.bind (R := JobsReplaced template) JobsReplaced.trans hx hf
  induction order with
  | nil => exact Moves.pure refl ()
  | cons id order ih =>
    refine andThen (Moves.getState refl) fun s => ?_
    refine andThen (Moves.ofExcept refl _) fun ch => ?_
    refine Moves.ofExcept_bind refl fun (snph, job, info) built => ?_
    obtain ⟨_, _, _, _, _, _, sourced⟩ := buildJobMessages_ok built
    refine andThen (Moves.modifyState fun s => setCurrentJob_replaced s id sourced) fun _ => ?_
    refine andThen (Moves.write refl _ _) fun _ => ?_
    exact andThen (Moves.write refl _ _) fun _ => ih

private theorem sendJobsToAllChannels_emits (template : RawTemplate) (jobId : UInt32)
    (order : List UInt32) :
    Handler.Emits Effect.IsJob (sendJobsToAllChannels X template jobId order) := by
  induction order with
  | nil => exact Handler.Emits.pure ()
  | cons id order ih =>
    refine Handler.Emits.bind Handler.Emits.getState fun s => ?_
    refine Handler.Emits.bind (Handler.Emits.ofExcept _) fun ch => ?_
    refine Handler.Emits.bind (Handler.Emits.ofExcept _) fun (snph, job, info) => ?_
    refine Handler.Emits.bind (Handler.Emits.modifyState _) fun _ => ?_
    refine Handler.Emits.bind (Handler.Emits.write trivial) fun _ => ?_
    exact Handler.Emits.bind (Handler.Emits.write trivial) fun _ => ih

/-- Whatever the outcome, a broadcast replaces current jobs and announces jobs. -/
theorem templateChanged_run {order : List UInt32} {w w' : World ConnectionState Effect}
    {result : Except String Unit} (ran : templateChanged X template order w = (result, w')) :
    w.state.JobsReplaced template w'.state ∧
      ∃ added, w'.effects = w.effects ++ added ∧ ∀ e ∈ added, e.IsJob := by
  unfold templateChanged at ran
  rw [Handler.bind_apply, allocJobId_apply] at ran
  simp only at ran
  have moved := sendJobsToAllChannels_moves (X := X) template w.state.nextJobId order
    { w with state := { w.state with nextJobId := w.state.nextJobId + 1 } }
  have emitted := sendJobsToAllChannels_emits (X := X) template w.state.nextJobId order
    { w with state := { w.state with nextJobId := w.state.nextJobId + 1 } }
  rw [ran] at moved emitted
  exact ⟨⟨moved.nextChannelId, moved.poolAddress, moved.channel⟩, emitted⟩

/-! ### Share submission -/

/-- The proof-of-work value of a header. -/
def workHash (X : Externals) (header : Header) : Nat :=
  Bytes.ofLE (header.blockHash X.sha256d).data

def networkTarget (nBits : UInt32) : Nat := Bytes.ofBE (compactToTargetBe nBits).data

def ChannelInfo.shareTarget (channel : ChannelInfo) : Nat := Bytes.ofBE channel.channelTargetBe.data

/-- The hex strings compare as the integers do. -/
theorem displayHash_gt_iff (channel : ChannelInfo) (header : Header) :
    displayHash (header.blockHash X.sha256d) > Bytes.hexEncode channel.channelTargetBe.data ↔
      ¬workHash X header ≤ channel.shareTarget := by
  have len := channel.channelTargetBe.size.trans (header.blockHash X.sha256d).reverse.size.symm
  rw [gt_iff_lt, displayHash, Bytes.hexEncode_lt_iff, Bytes.lt_iff_ofBE_lt len, Bytes.reverse_data,
    Bytes.ofBE_reverse, Nat.not_le]
  rfl

theorem displayHash_le_iff (nBits : UInt32) (header : Header) :
    displayHash (header.blockHash X.sha256d) ≤ compactToTargetHex nBits ↔
      workHash X header ≤ networkTarget nBits := by
  have len := (header.blockHash X.sha256d).reverse.size.trans (compactToTargetBe nBits).size.symm
  rw [displayHash, compactToTargetHex, Bytes.hexEncode_le_iff, Bytes.le_iff_ofBE_le len,
    Bytes.reverse_data, Bytes.ofBE_reverse]
  rfl

def refused (share : SubmitSharesExtended) (errorCode : ShareErrorCode) : Effect :=
  .wire (.submitSharesError
    { channelId := share.channelId, sequenceNumber := share.sequenceNumber, errorCode })

def accepted (share : SubmitSharesExtended) : Effect :=
  .wire (.submitSharesSuccess
    { channelId := share.channelId
      lastSequenceNumber := share.sequenceNumber
      newSubmitsAcceptedCount := 1
      newSharesSum := 1 })

def solutionOf (job : JobInfo) (share : SubmitSharesExtended) (coinbase : List UInt8) :
    SubmitSolutionData where
  templateId := job.templateId
  version := share.version
  headerTimestamp := share.ntime
  headerNonce := share.nonce
  coinbaseTx := coinbase

def creditOf (X : Externals) (channel : ChannelInfo) (share : SubmitSharesExtended)
    (header : Header) : ShareEvent where
  minerAddress := channel.minerAddress
  difficulty := hashToDifficulty (header.blockHash X.sha256d).reverse
  blockHashBe := (header.blockHash X.sha256d).reverse
  timestamp := share.ntime.toNat

/-- What a share for the current job deserves, by integer comparisons. -/
def judgement (X : Externals) (channel : ChannelInfo) (job : JobInfo) (share : SubmitSharesExtended)
    (coinbase : List UInt8) (header : Header) (dbTx : Bool) : List Effect :=
  if workHash X header ≤ channel.shareTarget then
    (if workHash X header ≤ networkTarget job.nbits then
      [.solution (solutionOf job share coinbase) header] else []) ++
    [accepted share] ++
    (if dbTx then [.credit (creditOf X channel share header) header] else [])
  else [refused share .difficultyTooLow]

/-- What a share leads to in a state. -/
def shareEffects (X : Externals) (s : ConnectionState) (share : SubmitSharesExtended)
    (dbTx : Bool) : List Effect :=
  match s.channels.get? share.channelId with
  | none => []
  | some channel =>
    match channel.currentJob with
    | none => [refused share .staleShareBeforeActivation]
    | some job =>
      if job.jobId ≠ share.jobId then [refused share .staleShareBeforeActivation]
      else
        let coinbase := shareCoinbase channel job share.extranonce.val
        match deserialize coinbase with
        | none => []
        | some coinbaseTx =>
          judgement X channel job share coinbase (shareHeader X job coinbaseTx share) dbTx

theorem shareEffects_current {s : ConnectionState} {channel : ChannelInfo} {job : JobInfo}
    {share : SubmitSharesExtended} {coinbaseTx : Transaction}
    (found : s.channels.get? share.channelId = some channel)
    (current : channel.currentJob = some job) (quoted : job.jobId = share.jobId)
    (parsed : deserialize (shareCoinbase channel job share.extranonce.val) = some coinbaseTx) :
    shareEffects X s share dbTx =
      judgement X channel job share (shareCoinbase channel job share.extranonce.val)
        (shareHeader X job coinbaseTx share) dbTx := by
  simp only [shareEffects, found, current, quoted, parsed, ne_eq, not_true_eq_false, if_false]

/-- What a share can lead to: a refusal, or what an accepted share for the channel's
current job deserves. -/
theorem shareEffects_cases {s : ConnectionState} {share : SubmitSharesExtended} {e : Effect}
    (member : e ∈ shareEffects X s share dbTx) :
    (∃ errorCode, e = refused share errorCode) ∨
    ∃ channel job coinbaseTx, s.channels.get? share.channelId = some channel ∧
      channel.currentJob = some job ∧ job.jobId = share.jobId ∧
      deserialize (shareCoinbase channel job share.extranonce.val) = some coinbaseTx ∧
      let header := shareHeader X job coinbaseTx share
      workHash X header ≤ channel.shareTarget ∧
      (e = accepted share ∨
        e = .credit (creditOf X channel share header) header ∨
        e = .solution (solutionOf job share (shareCoinbase channel job share.extranonce.val))
            header ∧ workHash X header ≤ networkTarget job.nbits) := by
  unfold shareEffects at member
  split at member
  · cases member
  -- an unknown channel is not answered
  next channel found =>
  split at member
  · exact .inl ⟨_, List.mem_singleton.mp member⟩
  -- no job yet, or another one: refused as stale
  next job current =>
  split at member
  · exact .inl ⟨_, List.mem_singleton.mp member⟩
  next quoted =>
  simp only at member
  split at member
  · cases member
  -- a coinbase that does not parse ends the handler
  next coinbaseTx parsed =>
  unfold judgement at member
  split at member
  next met =>
    refine .inr ⟨channel, job, coinbaseTx, found, current, not_not.mp quoted, parsed, met, ?_⟩
    simp only [List.mem_append, List.mem_singleton] at member
    -- an accepted share: a solution first, then the answer and the credit
    rcases member with (solution | answer) | credit
    · split at solution
      next solves => exact .inr (.inr ⟨List.mem_singleton.mp solution, solves⟩)
      · cases solution
    · exact .inl answer
    · split at credit
      · exact .inr (.inl (List.mem_singleton.mp credit))
      · cases credit
  · exact .inl ⟨_, List.mem_singleton.mp member⟩

open Handler in
private theorem judgeShare_performs (channel : ChannelInfo) (job : JobInfo)
    (share : SubmitSharesExtended) (coinbase : List UInt8) (header : Header) :
    Performs (judgement X channel job share coinbase header dbTx)
      (judgeShare X channel job share coinbase header dbTx) := by
  -- what follows once the share is good enough
  have answered : Performs ([accepted share] ++
      if dbTx then [.credit (creditOf X channel share header) header] else [])
      ((write (accepted share) "send SubmitSharesSuccess" >>= fun _ =>
        if dbTx then emit (.credit (creditOf X channel share header) header)
        else pure () : ConnectionM Unit)) := by
    refine (Performs.write _ _).bind ?_
    cases dbTx
    · exact Performs.pure
    · exact Performs.emit _
  unfold judgeShare judgement
  -- the handler compares hex strings, the effects are stated with numbers
  by_cases met : workHash X header ≤ channel.shareTarget
  · rw [if_pos met, if_neg (mt (displayHash_gt_iff channel header).mp (not_not_intro met)),
      List.append_assoc]
    by_cases solved : workHash X header ≤ networkTarget job.nbits
    · rw [if_pos solved, if_pos ((displayHash_le_iff job.nbits header).mpr solved)]
      exact (Performs.emit _).bind answered
    · rw [if_neg solved, if_neg (mt (displayHash_le_iff job.nbits header).mp solved)]
      exact answered
  · rw [if_neg met, if_pos ((displayHash_gt_iff channel header).mpr met)]
    exact Performs.write _ _

open Handler in
/-- A share changes no state and leads to the effects above, up to the first write that
fails. -/
theorem handleSubmitSharesExtended_run (X : Externals) (dbTx : Bool)
    (share : SubmitSharesExtended) (w : World ConnectionState Effect) :
    Performed (shareEffects X w.state share dbTx) w
      (handleSubmitSharesExtended X share dbTx w) := by
  unfold handleSubmitSharesExtended shareEffects
  simp only [bind_apply, getState]
  -- the cases of the handler, in its order
  cases w.state.channels.get? share.channelId with
  | none => exact Performs.pure w
  | some channel =>
    simp only
    cases channel.currentJob with
    | none => exact Performs.write _ _ w
    | some job =>
      simp only
      by_cases stale : job.jobId ≠ share.jobId
      · rw [if_pos stale, if_pos stale]
        exact Performs.write _ _ w
      rw [if_neg stale, if_neg stale]
      cases deserialize (shareCoinbase channel job share.extranonce.val) with
      | none => exact Performs.pure w
      | some coinbaseTx => exact judgeShare_performs channel job share _ _ w

end MiningPool
