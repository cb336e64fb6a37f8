import MiningPool.Stratum.Runs

/-!
# Share verdicts

A share is judged against the target that was advertised for its channel, by integers
the miner can compute. Whether a share that solves a block can miss that target
depends on the templates that came after the channel was opened.
-/

namespace MiningPool

open Bitcoin

variable {X : Externals} {dbTx : Bool} {c c' : Connection} {i : Input} {pool : String}

/-! ### The advertised target -/

/-- The answers to open requests that gave out a channel id, in order. -/
def openSuccesses (id : UInt32) (effects : List Effect) : List OpenExtendedMiningChannelSuccess :=
  effects.filterMap fun
    | .wire (.openExtendedMiningChannelSuccess m) => if m.channelId = id then some m else none
    | _ => none

private theorem openSuccesses_append (id : UInt32) (effects added : List Effect) :
    openSuccesses id (effects ++ added) = openSuccesses id effects ++ openSuccesses id added :=
  List.filterMap_append

private theorem openSuccesses_none (id : UInt32) (added : List Effect)
    (other : ∀ e ∈ added, ∀ m, e ≠ .wire (.openExtendedMiningChannelSuccess m)) :
    openSuccesses id added = [] := by
  rw [openSuccesses, List.filterMap_eq_nil_iff]
  intro e he
  cases e with
  | wire m =>
    cases m with
    | openExtendedMiningChannelSuccess m => exact absurd rfl (other _ he m)
    | _ => rfl
  | _ => rfl

theorem IsJob.not_success {e : Effect} (h : e.IsJob)
    (m : OpenExtendedMiningChannelSuccess) : e ≠ .wire (.openExtendedMiningChannelSuccess m) := by
  rintro rfl
  exact h

/-- Nothing a share leads to opens a channel. -/
theorem shareEffects_not_success {s : ConnectionState} {share : SubmitSharesExtended} {e : Effect}
    (h : e ∈ shareEffects X s share dbTx) (m : OpenExtendedMiningChannelSuccess) :
    e ≠ .wire (.openExtendedMiningChannelSuccess m) := by
  rcases shareEffects_cases h with ⟨_, rfl⟩ |
    ⟨_, _, _, _, _, _, _, _, rfl | rfl | ⟨rfl, _⟩⟩ <;> simp [refused, accepted]

/-- The target of a channel, if it is open. -/
def ConnectionState.targetOf (s : ConnectionState) (id : UInt32) : Option (Bytes 32) :=
  (s.channels.get? id).map ChannelInfo.channelTargetBe

private theorem targetOf_setCurrentJob (s : ConnectionState) (id id' : UInt32) (info : JobInfo) :
    (s.setCurrentJob id info).targetOf id' = s.targetOf id' := by
  rw [ConnectionState.targetOf, setCurrentJob_get?, Option.map_map, ConnectionState.targetOf]
  congr 1
  funext ch
  simp only [Function.comp_apply]
  split <;> rfl

private theorem targetOf_opened (s : ConnectionState) (msg : OpenExtendedMiningChannel)
    (template : RawTemplate) (id : UInt32) :
    (s.opened X msg template).targetOf id =
      if id = s.nextChannelId then some (openedChannel X s msg template).channelTargetBe
      else s.targetOf id := by
  rw [ConnectionState.targetOf, ConnectionState.opened, KeyedTable.get?_insert]
  split <;> rfl

private theorem targetOf_replaced {raw : RawTemplate} {s s' : ConnectionState}
    (replaced : s.JobsReplaced raw s') (id : UInt32) : s'.targetOf id = s.targetOf id := by
  rw [ConnectionState.targetOf, ConnectionState.targetOf]
  rcases replaced.channel id with same | ⟨ch, info, found, _, eq⟩
  · rw [same]
  · rw [eq, found]
    rfl

/-- The last answer that gave out a channel's id advertised the channel's target. -/
def Connection.Advertised (c : Connection) : Prop :=
  ∀ id target, c.state.targetOf id = some target →
    ∃ m, (openSuccesses id c.effects).getLast? = some m ∧ m.target = targetBeToSv2 target

private theorem advertised_kept (holds : c.Advertised)
    (targets : ∀ id, c'.state.targetOf id = c.state.targetOf id) {added : List Effect}
    (effects : c'.effects = c.effects ++ added)
    (other : ∀ e ∈ added, ∀ m, e ≠ .wire (.openExtendedMiningChannelSuccess m)) :
    c'.Advertised := by
  intro id target open_
  rw [targets] at open_
  rw [effects, openSuccesses_append, openSuccesses_none id added other, List.append_nil]
  exact holds id target open_

private theorem advertised_opened (holds : c.Advertised) {msg : OpenExtendedMiningChannel}
    {template : RawTemplate}
    (targets : ∀ id, c'.state.targetOf id = (c.state.opened X msg template).targetOf id)
    {added : List Effect}
    (effects : c'.effects = c.effects ++
      .wire (.openExtendedMiningChannelSuccess (openSuccess X c.state msg template)) :: added)
    (other : ∀ e ∈ added, ∀ m, e ≠ .wire (.openExtendedMiningChannelSuccess m)) :
    c'.Advertised := by
  intro id target open_
  rw [targets, targetOf_opened] at open_
  have answers : openSuccesses id c'.effects = openSuccesses id c.effects ++
      if c.state.nextChannelId = id then [openSuccess X c.state msg template] else [] := by
    rw [effects, List.append_cons, openSuccesses_append, openSuccesses_append,
      openSuccesses_none id added other, List.append_nil]
    congr 1
    by_cases same : c.state.nextChannelId = id <;> simp [openSuccesses, openSuccess, same]
  rw [answers]
  split at open_
  -- the new channel has the target that was just advertised
  next same =>
    cases open_
    exact ⟨openSuccess X c.state msg template, by simp [same], rfl⟩
  next other =>
    rw [if_neg (Ne.symm other), List.append_nil]
    exact holds id target open_

theorem Connection.Stepped.advertised (stepped : Stepped X dbTx c i c') (holds : c.Advertised) :
    c'.Advertised := by
  have jobOrConnected {now : Int} {e : Effect} (h : e.IsJob ∨ ∃ address, e = .connected address now)
      (m : OpenExtendedMiningChannelSuccess) :
      e ≠ .wire (.openExtendedMiningChannelSuccess m) := by
    rcases h with job | ⟨address, rfl⟩
    · exact IsJob.not_success job m
    · simp
  cases stepped with
  | unanswered state effects =>
    refine advertised_kept holds (fun id => ?_)
      (by simpa using effects : c'.effects = c.effects ++ []) (by simp)
    rw [state]
    rfl
  | unserved added state effects all =>
    refine advertised_opened holds (fun id => ?_) effects fun e he => jobOrConnected (all e he)
    rcases state with state | ⟨info, _, state⟩
    · rw [state]
    · rw [state, targetOf_setCurrentJob]
  | opened built state effects =>
    refine advertised_opened holds (fun id => ?_) effects ?_
    · rw [state, targetOf_setCurrentJob]
    · intro e he
      cases dbTx <;> simp at he <;> rcases he with rfl | rfl | rfl <;> simp
  | submitted added state effects expected =>
    refine advertised_kept holds (fun id => by rw [state]) effects fun e he => ?_
    exact shareEffects_not_success (expected.subset he)
  | unhandled state effects =>
    exact advertised_kept holds (fun id => by rw [state])
      (by simpa using effects : c'.effects = c.effects ++ [])
      (by simp)
  | broadcast added _ state effects all =>
    exact advertised_kept holds (targetOf_replaced state) effects fun e he =>
      IsJob.not_success (all e he)

theorem Connection.run_advertised {inputs : List Input}
    (ran : run X dbTx (new pool) inputs = some c) : c.Advertised := by
  refine Execution.run_invariant Connection.Advertised ?_ ?_ ran
  · intro c i c' holds stepped
    exact (step_cases stepped).advertised holds
  · intro id target open_
    cases open_

/-! ### The verdict -/

/-- A share for the current job is accepted exactly when its header's proof of work meets
the target last advertised for the channel; it is a solution when it also meets the
network's, and it is credited when it is accepted. The state does not change. -/
theorem share_verdict {inputs : List Input} {channel : ChannelInfo} {job : JobInfo}
    {share : SubmitSharesExtended} {coinbaseTx : Transaction}
    (ran : Connection.run X dbTx (Connection.new pool) inputs = some c)
    (found : c.state.channels.get? share.channelId = some channel)
    (current : channel.currentJob = some job) (quoted : job.jobId = share.jobId)
    (parsed : deserialize (shareCoinbase channel job share.extranonce.val) = some coinbaseTx) :
    let header := shareHeader X job coinbaseTx share
    let H := Bytes.ofLE (header.blockHash X.sha256d).data
    let N := Bytes.ofBE (compactToTargetBe job.nbits).data
    ∃ opening, (openSuccesses share.channelId c.effects).getLast? = some opening ∧
      let T := Bytes.ofLE opening.target.data
      header.merkleRoot = foldBranch X.sha256d (computeTxid X.sha256d coinbaseTx) job.merklePath ∧
      (creditOf X channel share header).minerAddress = channel.minerAddress ∧
      (creditOf X channel share header).blockHashBe.data = Bytes.toBE 32 H ∧
      c.handle [] (handleSubmitSharesExtended X share dbTx) =
        (.ok (), ⟨c.state, c.effects ++
          (if H ≤ T then
            (if H ≤ N then
              [.solution
                { templateId := job.templateId
                  version := share.version
                  headerTimestamp := share.ntime
                  headerNonce := share.nonce
                  coinbaseTx := shareCoinbase channel job share.extranonce.val } header]
            else []) ++
            [accepted share] ++
            (if dbTx then [.credit (creditOf X channel share header) header] else [])
          else [refused share .difficultyTooLow]), []⟩) := by
  intro header H N
  obtain ⟨opening, last, target⟩ := Connection.run_advertised ran share.channelId
    channel.channelTargetBe (by rw [ConnectionState.targetOf, found]; rfl)
  refine ⟨opening, last, ?_⟩
  -- the little-endian number in the answer is the big-endian one of the channel
  have advertised : Bytes.ofLE opening.target.data = channel.shareTarget := by
    rw [target, ofLE_targetBeToSv2]
    rfl
  -- the hash of the record is displayed with its bytes reversed
  have digits : (creditOf X channel share header).blockHashBe.data = Bytes.toBE 32 H := by
    have spelled := Bytes.toLE_ofLE (header.blockHash X.sha256d).data
    rw [(header.blockHash X.sha256d).size] at spelled
    rw [Bytes.toBE, spelled]
    rfl
  have performed := handleSubmitSharesExtended_run X dbTx share
    ⟨c.state, c.effects, []⟩
  refine ⟨rfl, rfl, digits, ?_⟩
  rw [advertised, Connection.handle, performed.writable rfl,
    shareEffects_current found current quoted parsed]
  rfl

/-- The channel of the test network, its advertised target, and a share on it that meets
both targets. -/
private theorem regtest_wins :
    let H := Bytes.ofLE ((shareHeader regtestExternals regtestJob regtestCoinbaseTx
      regtestShare).blockHash regtestExternals.sha256d).data
    let opening := openSuccess regtestExternals (ConnectionState.new regtestAddress) regtestOpen
      regtestTemplate
    (Connection.new regtestAddress).run regtestExternals true regtestInputs =
        some regtestConnection ∧
      regtestConnection.state.channels.get? regtestShare.channelId = some regtestChannel ∧
      deserialize (shareCoinbase regtestChannel regtestJob regtestShare.extranonce.val) =
        some regtestCoinbaseTx ∧
      (openSuccesses regtestShare.channelId regtestConnection.effects).getLast? = some opening ∧
      H ≤ Bytes.ofLE opening.target.data ∧
      H ≤ Bytes.ofBE (compactToTargetBe regtestJob.nbits).data := by
  decide +kernel

/-- The first share of the test network solves a block. -/
theorem share_verdict_regtest :
    let header := shareHeader regtestExternals regtestJob regtestCoinbaseTx regtestShare
    regtestConnection.handle [] (handleSubmitSharesExtended regtestExternals regtestShare true) =
      (.ok (), ⟨regtestConnection.state, regtestConnection.effects ++
        [.solution
          { templateId := 0
            version := 0x20000000
            headerTimestamp := 1700000000
            headerNonce := 0
            coinbaseTx := shareCoinbase regtestChannel regtestJob [0, 0, 0, 0] } header,
          accepted regtestShare,
          .credit (creditOf regtestExternals regtestChannel regtestShare header) header], []⟩) := by
  intro header
  obtain ⟨ran, found, parsed, answered, meets, solves⟩ := regtest_wins
  obtain ⟨opening, last, _, _, _, handled⟩ := share_verdict ran found rfl rfl parsed
  rw [answered, Option.some.injEq] at last
  subst last
  rw [if_pos meets, if_pos solves, if_pos rfl] at handled
  exact handled

/-! ### Shares that solve a block -/

/-- A new channel's target is the easier of the network's and that of the declared rate. -/
theorem ofBE_openingTarget (nominalHashRate nBits : UInt32) :
    Bytes.ofBE (openingTarget nominalHashRate nBits).data =
      max (networkTarget nBits) (Bytes.ofBE (hashrateToTargetBe nominalHashRate).data) := by
  have len : (hashrateToTargetBe nominalHashRate).data.length =
      (compactToTargetBe nBits).data.length :=
    (hashrateToTargetBe nominalHashRate).size.trans (compactToTargetBe nBits).size.symm
  simp only [openingTarget, gt_iff_lt, Bytes.lt_iff_ofBE_lt len]
  split
  next easier => exact (max_eq_left easier.le).symm
  next harder => exact (max_eq_right (Nat.not_lt.mp harder)).symm

theorem networkTarget_le_openingTarget (nominalHashRate nBits : UInt32) :
    networkTarget nBits ≤ Bytes.ofBE (openingTarget nominalHashRate nBits).data :=
  ofBE_openingTarget nominalHashRate nBits ▸ le_max_left _ _

/-- No open channel has a target harder than the one its current job's block must meet. -/
def Connection.Winnable (c : Connection) : Prop :=
  ∀ id ch job, c.state.channels.get? id = some ch → ch.currentJob = some job →
    networkTarget job.nbits ≤ ch.shareTarget

/-- The input is not a template whose network target is easier than the target of an open
channel. -/
def NotEasier (c : Connection) : Input → Prop
  | .frame .. => True
  | .templateChanged template _ _ => ∀ id ch, c.state.channels.get? id = some ch →
      networkTarget template.setNewPrevHash.nBits ≤ ch.shareTarget

theorem Connection.Stepped.winnable (stepped : Stepped X dbTx c i c') (holds : c.Winnable)
    (notEasier : NotEasier c i) : c'.Winnable := by
  intro id ch job found current
  -- an old job, a job of a broadcast, or a new channel without or with its job
  rcases stepped.channel_cases found with old | ⟨base, info, order, socket, old, sourced, eq, rfl⟩ |
    ⟨msg, _, _, rfl | ⟨info, sourced, rfl⟩⟩
  · exact holds id ch job old current
  · cases current
    rw [eq] at notEasier
    rw [sourced.nbits]
    exact notEasier id base old
  · cases current
  · cases current
    rw [sourced.nbits]
    exact networkTarget_le_openingTarget _ _

/-- As long as no template is easier than an open channel, every share for a current job
that solves a block is forwarded and accepted, and none is refused for its difficulty. -/
theorem winning_share_accepted {inputs : List Input}
    (ran : Connection.run X dbTx (Connection.new pool) inputs = some c)
    (notEasier : Execution.Along (Connection.step X dbTx) NotEasier (Connection.new pool) inputs) :
    c.Winnable ∧
      ∀ share channel job coinbaseTx, c.state.channels.get? share.channelId = some channel →
        channel.currentJob = some job → job.jobId = share.jobId →
        deserialize (shareCoinbase channel job share.extranonce.val) = some coinbaseTx →
        let header := shareHeader X job coinbaseTx share
        let coinbase := shareCoinbase channel job share.extranonce.val
        workHash X header ≤ networkTarget job.nbits →
          c.handle [] (handleSubmitSharesExtended X share dbTx) = (.ok (), ⟨c.state, c.effects ++
            ([.solution (solutionOf job share coinbase) header, accepted share] ++
              if dbTx then [.credit (creditOf X channel share header) header] else []), []⟩) ∧
          ∀ socket, ∃ added,
            (c.handle socket (handleSubmitSharesExtended X share dbTx)).2.effects =
              c.effects ++ added ∧ refused share .difficultyTooLow ∉ added := by
  have winnable : c.Winnable := by
    refine Execution.run_invariant_along Connection.Winnable ?_ ?_ notEasier ran
    · intro c i c' holds met stepped
      exact (Connection.step_cases stepped).winnable holds met
    · intro id ch job found
      cases found
  refine ⟨winnable, ?_⟩
  intro share channel job coinbaseTx found current quoted parsed header coinbase solves
  -- what meets the target of the network meets that of the channel
  have meets : workHash X header ≤ channel.shareTarget :=
    solves.trans (winnable _ channel job found current)
  have expected : shareEffects X c.state share dbTx =
      [.solution (solutionOf job share coinbase) header, accepted share] ++
        if dbTx then [.credit (creditOf X channel share header) header] else [] := by
    rw [shareEffects_current found current quoted parsed, judgement, if_pos meets, if_pos solves]
    rfl
  constructor
  · have performed := handleSubmitSharesExtended_run X dbTx share
      ⟨c.state, c.effects, []⟩
    rw [Connection.handle, performed.writable rfl, expected]
  · intro socket
    obtain ⟨added, before, effects⟩ := (handleSubmitSharesExtended_run X dbTx share
      ⟨c.state, c.effects, socket⟩).partly
    refine ⟨added, effects, fun member => ?_⟩
    have member := before.subset member
    rw [expected] at member
    cases dbTx <;> simp [refused, accepted] at member

/-- The same share under `winning_share_accepted`, on a socket whose first write fails. -/
theorem winning_share_accepted_regtest :
    ∃ added, (regtestConnection.handle [false]
        (handleSubmitSharesExtended regtestExternals regtestShare true)).2.effects =
      regtestConnection.effects ++ added ∧ refused regtestShare .difficultyTooLow ∉ added := by
  have notEasier : Execution.Along (Connection.step regtestExternals true) NotEasier
      (Connection.new regtestAddress) regtestInputs := ⟨trivial, fun _ _ => trivial⟩
  obtain ⟨ran, found, parsed, _, _, solves⟩ := regtest_wins
  exact ((winning_share_accepted ran notEasier).2 regtestShare regtestChannel regtestJob
    regtestCoinbaseTx found rfl rfl parsed solves).2 [false]

/-- A channel opened under a hard template, then given a job of an easy one. -/
def retargetInputs : List Input :=
  [.frame (.openExtendedMiningChannel (some regtestOpen))
    { regtestTemplate with
      setNewPrevHash := { regtestTemplate.setNewPrevHash with nBits := 0x1d00ffff } } 1700000000 [],
   .templateChanged regtestTemplate [0] []]

def retargetConnection : Connection :=
  ((Connection.new regtestAddress).run regtestExternals true retargetInputs).getD
    (Connection.new "")

/-- A share that solves a block of the easy template is refused for its difficulty. -/
theorem winning_share_refused :
    let job : JobInfo := { regtestJob with jobId := 2 }
    let channel : ChannelInfo :=
      { regtestChannel with currentJob := some job, channelTargetBe := pdiff1 }
    let share : SubmitSharesExtended := { regtestShare with jobId := 2 }
    let header := shareHeader regtestExternals job regtestCoinbaseTx share
    (Connection.new regtestAddress).run regtestExternals true retargetInputs =
        some retargetConnection ∧
      retargetConnection.state.channels.get? share.channelId = some channel ∧
      deserialize (shareCoinbase channel job share.extranonce.val) = some regtestCoinbaseTx ∧
      workHash regtestExternals header ≤ networkTarget job.nbits ∧
      (retargetConnection.handle []
          (handleSubmitSharesExtended regtestExternals share true)).2.effects =
        retargetConnection.effects ++ [refused share .difficultyTooLow] := by
  decide +kernel

end MiningPool
