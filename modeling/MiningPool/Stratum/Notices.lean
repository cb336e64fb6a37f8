import MiningPool.Stratum.Runs

/-!
# Notices

What a connection tells about one channel: that it is open, and each job it sends, with
the template that the job was built from. One step of a connection says at most one of
each, and the last job it sent is the channel's current job.
-/

namespace MiningPool

variable {X : Externals} {dbTx : Bool} {c c' : Connection} {i : Input}

/-- Connections are told apart by a number. `job` names the template of the job, which the
message itself does not. -/
inductive Notice
  | published
  | changed (c : Nat)
  | opened (c : Nat) (id : UInt32)
  | job (c : Nat) (id jobId : UInt32) (templateId : Nat)
deriving DecidableEq

/-- The notice that an effect of connection `k` is, if it is one, when it comes of an input
with that template. -/
def Effect.notice? (k templateId : Nat) : Effect → Option Notice
  | .wire (.openExtendedMiningChannelSuccess m) => some (.opened k m.channelId)
  | .wire (.newExtendedMiningJob m) => some (.job k m.channelId m.jobId templateId)
  | _ => none

/-- The notice is about channel `id` of connection `k`. -/
def Notice.isAbout (k : Nat) (id : UInt32) : Notice → Bool
  | .opened k' id' => k' = k ∧ id' = id
  | .job k' id' _ _ => k' = k ∧ id' = id
  | _ => false

/-- What some effects say about channel `id`. -/
def noticesAbout (k : Nat) (id : UInt32) (templateId : Nat) (effects : List Effect) : List Notice :=
  (effects.filterMap (Effect.notice? k templateId)).filter (Notice.isAbout k id)

variable {k templateId : Nat} {id : UInt32}

@[simp] theorem noticesAbout_nil : noticesAbout k id templateId [] = [] := rfl

theorem noticesAbout_append (effects added : List Effect) :
    noticesAbout k id templateId (effects ++ added) =
      noticesAbout k id templateId effects ++ noticesAbout k id templateId added := by
  simp [noticesAbout]

theorem noticesAbout_cons (e : Effect) (effects : List Effect) :
    noticesAbout k id templateId (e :: effects) =
      noticesAbout k id templateId [e] ++ noticesAbout k id templateId effects :=
  noticesAbout_append [e] effects

@[simp] theorem noticesAbout_job (m : NewExtendedMiningJob) :
    noticesAbout k id templateId [.wire (.newExtendedMiningJob m)] =
      if m.channelId = id then [.job k id m.jobId templateId] else [] := by
  by_cases same : m.channelId = id <;> simp [noticesAbout, Effect.notice?, Notice.isAbout, same]

@[simp] theorem noticesAbout_opened (m : OpenExtendedMiningChannelSuccess) :
    noticesAbout k id templateId [.wire (.openExtendedMiningChannelSuccess m)] =
      if m.channelId = id then [.opened k id] else [] := by
  by_cases same : m.channelId = id <;> simp [noticesAbout, Effect.notice?, Notice.isAbout, same]

@[simp] theorem noticesAbout_prevHash (m : SetNewPrevHash) :
    noticesAbout k id templateId [.wire (.setNewPrevHash m)] = [] := rfl

@[simp] theorem noticesAbout_connected (address : String) (now : Int) :
    noticesAbout k id templateId [.connected address now] = [] := rfl

/-! ### A broadcast -/

/-- What a broadcast of `raw` does to a channel, and says about it. -/
inductive Rejobbed (X : Externals) (raw : RawTemplate) (k : Nat) (id : UInt32)
    (before after : Option ChannelInfo) : List Notice → Prop
  | skipped (same : after = before) : Rejobbed X raw k id before after []
  /-- The job was built, but the write failed. -/
  | unsent {ch : ChannelInfo} {info : JobInfo} (found : before = some ch)
      (served : after = some { ch with currentJob := some info })
      (built : info.BuiltFor X ch raw) : Rejobbed X raw k id before after []
  | sent {ch : ChannelInfo} {info : JobInfo} (found : before = some ch)
      (served : after = some { ch with currentJob := some info })
      (built : info.BuiltFor X ch raw) :
      Rejobbed X raw k id before after [.job k id info.jobId raw.newTemplate.templateId]

/-- A run of the broadcast loop, seen from channel `id`. -/
private structure Broadcasts (X : Externals) (raw : RawTemplate) (k : Nat) (id : UInt32)
    (order : List UInt32) (result : Except String Unit) (w w' : World ConnectionState Effect)
    (added : List Effect) : Prop where
  effects : w'.effects = w.effects ++ added
  rejobbed : Rejobbed X raw k id (w.state.channels.get? id) (w'.state.channels.get? id)
    (noticesAbout k id raw.newTemplate.templateId added)
  absent : id ∉ order → noticesAbout k id raw.newTemplate.templateId added = [] ∧
    w'.state.channels.get? id = w.state.channels.get? id
  whole : result = .ok () → id ∈ order →
    noticesAbout k id raw.newTemplate.templateId added ≠ []

section Turn

variable {raw : RawTemplate} {s : ConnectionState} {first jobId : UInt32} {ch : ChannelInfo}
  {snph : SetNewPrevHash} {job : NewExtendedMiningJob} {info : JobInfo}

/-- The channels once the job is recorded. -/
private theorem turn_table (found : s.channels.get? first = some ch) (id : UInt32) :
    (s.setCurrentJob first info).channels.get? id =
      if id = first then some { ch with currentJob := some info } else s.channels.get? id := by
  rw [setCurrentJob_get?]
  split
  next same => rw [same, found, Option.map_some]
  · simp

private theorem turn_said (keyed : s.Keyed) (found : s.channels.get? first = some ch)
    (built : buildJobMessages X ch jobId raw = .ok (snph, job, info)) :
    noticesAbout k id templateId [.wire (.newExtendedMiningJob job)] =
      if id = first then [.job k id info.jobId templateId] else [] := by
  obtain ⟨_, _, _, _, _, announced, _⟩ := buildJobMessages_ok built
  rw [keyed first ch found] at announced
  rw [noticesAbout_job, announced.jobChannel, announced.jobId]
  simp only [eq_comm]

end Turn

/-- The loop stops at the first job that is not built or sent. Until then each channel it
visits is served once, and the others are left alone. -/
private theorem sendJobsToAllChannels_broadcasts (k : Nat) (id : UInt32) {raw : RawTemplate}
    {jobId : UInt32} {order : List UInt32} {result : Except String Unit}
    {w w' : World ConnectionState Effect}
    (keyed : w.state.Keyed) (nodup : order.Nodup)
    (ran : sendJobsToAllChannels X raw jobId order w = (result, w')) :
    ∃ added, Broadcasts X raw k id order result w w' added := by
  induction order generalizing w with
  | nil =>
    cases ran
    exact ⟨[], (List.append_nil _).symm, .skipped rfl, fun _ => ⟨rfl, rfl⟩, by simp⟩
  | cons first order ih =>
    rw [List.nodup_cons] at nodup
    cases sendJobsToAllChannels_turn ran with
    | unbuilt failed same =>
      subst same
      exact ⟨[], (List.append_nil _).symm, .skipped rfl, fun _ => ⟨rfl, rfl⟩,
        fun done => absurd done failed⟩
    | @unsent ch snph job info sent failed found built state effects part =>
      -- what was sent is the job or nothing
      have said : noticesAbout k id raw.newTemplate.templateId sent = [] ∨ id = first ∧
          noticesAbout k id raw.newTemplate.templateId sent =
            [.job k id info.jobId raw.newTemplate.templateId] := by
        rcases part with rfl | rfl
        · exact .inl rfl
        · rw [turn_said keyed found built]
          by_cases same : id = first <;> simp [same]
      refine ⟨sent, effects, ?_, fun outside => ?_, fun done => absurd done failed⟩
      · rw [state, turn_table found]
        rcases said with silent | ⟨rfl, said⟩
        · rw [silent]
          by_cases same : id = first
          · subst same
            exact .unsent found (if_pos rfl) (.of_ok built)
          · exact .skipped (if_neg same)
        · rw [said]
          exact .sent found (if_pos rfl) (.of_ok built)
      · have other := List.ne_of_not_mem_cons outside
        rw [state, turn_table found]
        exact ⟨said.resolve_right fun same => other same.1, if_neg other⟩
    | @served ch snph job info socket found built rest =>
      obtain ⟨added, rest⟩ := ih (setCurrentJob_keyed keyed) nodup.2 rest
      have total : noticesAbout k id raw.newTemplate.templateId
          ([.wire (.newExtendedMiningJob job), .wire (.setNewPrevHash snph)] ++ added) =
          (if id = first then [.job k id info.jobId raw.newTemplate.templateId] else []) ++
            noticesAbout k id raw.newTemplate.templateId added := by
        rw [noticesAbout_append, noticesAbout_cons, turn_said keyed found built,
          noticesAbout_prevHash, List.append_nil]
      refine ⟨[.wire (.newExtendedMiningJob job), .wire (.setNewPrevHash snph)] ++ added,
        by rw [rest.effects]; simp, ?_, ?_, ?_⟩
      · rw [total]
        have later := rest.rejobbed
        by_cases same : id = first
        · subst same
          -- the rest of the walk does not come back to this channel
          obtain ⟨silent, kept⟩ := rest.absent nodup.1
          rw [if_pos rfl, silent, List.append_nil]
          exact .sent found (kept.trans ((turn_table found _).trans (if_pos rfl)))
            (.of_ok built)
        · rw [turn_table found, if_neg same] at later
          rw [if_neg same, List.nil_append]
          exact later
      · intro outside
        have other := List.ne_of_not_mem_cons outside
        obtain ⟨silent, kept⟩ := rest.absent (List.not_mem_of_not_mem_cons outside)
        rw [total, if_neg other, silent]
        exact ⟨rfl, kept.trans ((turn_table found id).trans (if_neg other))⟩
      · intro done member
        rw [total]
        rcases List.mem_cons.mp member with same | member
        · rw [if_pos same]
          simp
        · exact List.append_ne_nil_of_right_ne_nil _ (rest.whole done member)

/-! ### Steps -/

/-- What a step of connection `k` does to channel `id`, and says about it. -/
inductive Connection.Tells (X : Externals) (k : Nat) (id : UInt32) (c : Connection) (i : Input)
    (c' : Connection) : List Notice → Prop
  | nothing (same : c'.state.channels.get? id = c.state.channels.get? id) : Tells X k id c i c' []
  | opens {ch : ChannelInfo} {info : JobInfo} (request : i.opens.isSome)
      (found : c'.state.channels.get? id = some ch) (current : ch.currentJob = some info)
      (built : info.BuiltFor X ch i.template) : Tells X k id c i c'
        [.opened k id, .job k id info.jobId i.template.newTemplate.templateId]
  /-- A request that ends in an error, and the connection with it. -/
  | fails {notices jobId} (request : i.opens.isSome) (dead : c'.live = false)
      (part : notices <+: [.opened k id, .job k id jobId i.template.newTemplate.templateId]) :
      Tells X k id c i c' notices
  | broadcasts {raw order socket notices} (broadcast : i = .templateChanged raw order socket)
      (rejobbed : Rejobbed X i.template k id (c.state.channels.get? id)
        (c'.state.channels.get? id) notices) : Tells X k id c i c' notices

/-- The effects that a step added. -/
def Connection.added (c c' : Connection) : List Effect := c'.effects.drop c.effects.length

theorem Connection.added_eq {added : List Effect} (effects : c'.effects = c.effects ++ added) :
    c.added c' = added := by
  rw [Connection.added, effects, List.drop_left]

private theorem noticesAbout_eq_nil {effects : List Effect}
    (none : ∀ e ∈ effects, e.notice? k templateId = none) :
    noticesAbout k id templateId effects = [] := by
  rw [noticesAbout, List.filterMap_eq_nil_iff.mpr none, List.filter_nil]

/-- Nothing a share leads to is a notice. -/
private theorem noticesAbout_share {s : ConnectionState} {share : SubmitSharesExtended}
    {added : List Effect} (expected : added <+: shareEffects X s share dbTx) :
    noticesAbout k id templateId added = [] := by
  apply noticesAbout_eq_nil
  intro e member
  rcases shareEffects_cases (expected.subset member) with ⟨_, rfl⟩ |
    ⟨_, _, _, _, _, _, _, _, rfl | rfl | ⟨rfl, _⟩⟩ <;> rfl

/-- What an open request says about the new channel and the others. -/
private theorem noticesAbout_open {success : OpenExtendedMiningChannelSuccess}
    {job : NewExtendedMiningJob} {rest added : List Effect}
    (sameChannel : job.channelId = success.channelId)
    (quiet : ∀ e ∈ rest, e.notice? k templateId = none)
    (part : added <+: .wire (.newExtendedMiningJob job) :: rest) :
    noticesAbout k id templateId (.wire (.openExtendedMiningChannelSuccess success) :: added) <+:
      if success.channelId = id then [.opened k id, .job k id job.jobId templateId] else [] := by
  rw [noticesAbout_cons, noticesAbout_opened]
  -- the job was sent or not; what comes after it says nothing
  rcases List.prefix_cons_iff.mp part with rfl | ⟨later, rfl, within⟩
  · by_cases same : success.channelId = id <;> simp [same]
  · have silent : noticesAbout k id templateId later = [] :=
      noticesAbout_eq_nil fun e member => quiet e (within.subset member)
    rw [noticesAbout_cons, noticesAbout_job, silent, sameChannel]
    by_cases same : success.channelId = id <;> simp [same]

private theorem opened_get? (s : ConnectionState) (msg : OpenExtendedMiningChannel)
    (raw : RawTemplate) (id : UInt32) : (s.opened X msg raw).channels.get? id =
      if id = s.nextChannelId then some (openedChannel X s msg raw) else s.channels.get? id :=
  KeyedTable.get?_insert ..

/-- A request that ends in an error says at most that the channel is open and has a job. -/
private theorem open_fails {msg : OpenExtendedMiningChannel} {raw : RawTemplate} {now : Int}
    {w w' : World ConnectionState Effect} {result : Except String Unit}
    (ran : handleOpenExtendedMiningChannel X msg raw now dbTx w = (result, w'))
    (c : Connection) (state : w.state = c.state) (effects : w.effects = c.effects)
    (state' : w'.state = c'.state) (effects' : w'.effects = c'.effects) (dead : c'.live = false)
    (socket : List Bool) :
    Connection.Tells X k id c
      (.frame (.openExtendedMiningChannel (some msg)) raw now socket) c'
      (noticesAbout k id raw.newTemplate.templateId (c.added c')) := by
  -- nothing was written, or at least the answer
  rcases handleOpenExtendedMiningChannel_run ran with ⟨same, kept⟩ | ⟨added, same, inOrder, kept⟩
  · rw [effects', effects] at same
    rw [Connection.added_eq (same.trans (List.append_nil _).symm)]
    exact .nothing (by rw [← state', kept, ← state])
  · rw [effects', effects, state] at same
    rw [Connection.added_eq same]
    have part : ∃ jobId, noticesAbout k id raw.newTemplate.templateId
        (.wire (.openExtendedMiningChannelSuccess (openSuccess X c.state msg raw)) :: added) <+:
        if c.state.nextChannelId = id then
          [.opened k id, .job k id jobId raw.newTemplate.templateId] else [] := by
      rcases inOrder with rfl | ⟨job, snph, address, channel, part⟩
      · refine ⟨0, ?_⟩
        rw [noticesAbout_opened, openSuccess]
        by_cases own : c.state.nextChannelId = id <;> simp [own]
      · refine ⟨job.jobId, noticesAbout_open (channel.trans (by rw [state]; rfl)) ?_ part⟩
        intro e member
        simp only [List.mem_cons, List.not_mem_nil, or_false] at member
        rcases member with rfl | rfl <;> rfl
    obtain ⟨jobId, part⟩ := part
    by_cases own : c.state.nextChannelId = id
    · rw [if_pos own] at part
      exact .fails rfl dead part
    · -- the request was for another channel
      rw [if_neg own, List.prefix_nil] at part
      rw [part]
      refine .nothing ?_
      rw [← state']
      rcases kept with kept | ⟨info, _, kept⟩
      · rw [kept, opened_get?, state, if_neg (Ne.symm own)]
      · rw [kept, setCurrentJob_get?, opened_get?, state, if_neg (Ne.symm own)]
        simp [Ne.symm own]

/-- A request that is served announces the new channel and its first job. -/
private theorem open_serves (k : Nat) (id : UInt32) {msg : OpenExtendedMiningChannel}
    {raw : RawTemplate} {now : Int} {snph : SetNewPrevHash} {job : NewExtendedMiningJob}
    {info : JobInfo}
    (built : buildJobMessages X (openedChannel X c.state msg raw) c.state.nextJobId raw =
      .ok (snph, job, info))
    (state : c'.state = (c.state.opened X msg raw).setCurrentJob c.state.nextChannelId info)
    (effects : c'.effects = c.effects ++
        ([.wire (.openExtendedMiningChannelSuccess (openSuccess X c.state msg raw)),
          .wire (.newExtendedMiningJob job), .wire (.setNewPrevHash snph)] ++
        if dbTx then [.connected (openedChannel X c.state msg raw).minerAddress now] else [])) :
    noticesAbout k id raw.newTemplate.templateId (c.added c') =
      (if c.state.nextChannelId = id then
        [.opened k id, .job k id info.jobId raw.newTemplate.templateId] else []) ∧
    c'.state.channels.get? id = if id = c.state.nextChannelId then
      some { openedChannel X c.state msg raw with currentJob := some info }
      else c.state.channels.get? id := by
  obtain ⟨_, _, _, _, _, announced, _⟩ := buildJobMessages_ok built
  have channel : job.channelId = c.state.nextChannelId := announced.jobChannel
  -- the greeting of the database is no message
  have greeting : ∀ e ∈ (if dbTx then
      [Effect.connected (openedChannel X c.state msg raw).minerAddress now] else []),
      e.notice? k raw.newTemplate.templateId = none := by
    intro e member
    split at member
    · obtain rfl := List.mem_singleton.mp member
      rfl
    · cases member
  constructor
  · rw [Connection.added_eq effects, noticesAbout_append, noticesAbout_eq_nil greeting,
      List.append_nil, noticesAbout_cons, noticesAbout_opened,
      noticesAbout_cons (.wire (.newExtendedMiningJob job)), noticesAbout_job, channel,
      announced.jobId, noticesAbout_prevHash, List.append_nil]
    by_cases own : c.state.nextChannelId = id <;> simp [openSuccess, own]
  · rw [state, setCurrentJob_get?, opened_get?]
    by_cases own : id = c.state.nextChannelId
    · rw [if_pos own, if_pos own, Option.map_some, if_pos own]
    · simp [own]

/-- What a broadcast does to channel `id`, told of its step. -/
private theorem broadcast_tells (k : Nat) (id : UInt32) {raw : RawTemplate} {order : List UInt32}
    {socket : List Bool} (keyed : c.state.Keyed)
    (stepped : c.step X dbTx (.templateChanged raw order socket) = some c') :
    Rejobbed X raw k id (c.state.channels.get? id) (c'.state.channels.get? id)
      (noticesAbout k id raw.newTemplate.templateId (c.added c')) ∧
    (c.Succeeds X dbTx (.templateChanged raw order socket) → id ∈ order →
      noticesAbout k id raw.newTemplate.templateId (c.added c') ≠ []) := by
  obtain ⟨keys, result, w, ran, state, effects, whole⟩ := Connection.step_broadcast stepped
  -- the loop visits every key once
  have nodup : order.Nodup := keys.nodup_iff.mpr c.state.channels.unique
  obtain ⟨added, broadcast⟩ := sendJobsToAllChannels_broadcasts k id keyed nodup ran
  rw [state, Connection.added_eq (effects.trans broadcast.effects)]
  exact ⟨broadcast.rejobbed, fun succeeds => broadcast.whole (whole.mp succeeds)⟩

namespace Connection

theorem step_tells (k : Nat) (id : UInt32) (keyed : c.state.Keyed)
    (stepped : c.step X dbTx i = some c') : Tells X k id c i c'
      (noticesAbout k id i.template.newTemplate.templateId (c.added c')) := by
  have live := step_live stepped
  cases step_cases stepped with
  -- a request that ended in an error
  | unanswered _ _ dead =>
    simp only [step, live, Bool.not_true, Bool.false_eq_true, if_false, Option.some.injEq]
      at stepped
    subst stepped
    exact open_fails rfl c rfl rfl rfl rfl dead _
  | unserved _ _ _ _ dead =>
    simp only [step, live, Bool.not_true, Bool.false_eq_true, if_false, Option.some.injEq]
      at stepped
    subst stepped
    exact open_fails rfl c rfl rfl rfl rfl dead _
  | @opened msg template now socket _ _ _ info built state effects =>
    obtain ⟨said, table⟩ := open_serves k id built state effects
    -- the request opened this channel, or another
    by_cases own : c.state.nextChannelId = id
    · rw [if_pos own] at said
      rw [if_pos own.symm] at table
      rw [Input.template, said]
      exact .opens rfl table rfl (.of_ok built)
    · rw [if_neg own] at said
      rw [if_neg (Ne.symm own)] at table
      rw [Input.template, said]
      exact .nothing table
  | submitted added state effects expected =>
    rw [added_eq effects, noticesAbout_share expected]
    exact .nothing (by rw [state])
  | unhandled state effects =>
    rw [added_eq (effects.trans (List.append_nil _).symm)]
    exact .nothing (by rw [state])
  | broadcast => exact .broadcasts rfl (broadcast_tells k id keyed stepped).1

/-- An open request that does not end the connection leaves a channel with a job. -/
theorem step_opens (k : Nat) (stepped : c.step X dbTx i = some c') (live : c'.live = true)
    (request : i.opens.isSome) : ∃ id ch info, c'.state.channels.get? id = some ch ∧
      ch.currentJob = some info ∧ info.BuiltFor X ch i.template ∧
      noticesAbout k id i.template.newTemplate.templateId (c.added c') =
        [.opened k id, .job k id info.jobId i.template.newTemplate.templateId] := by
  cases step_cases stepped with
  | unanswered _ _ dead => simp [dead] at live
  | unserved _ _ _ _ dead => simp [dead] at live
  | @opened _ _ _ _ _ _ _ info built state effects =>
    obtain ⟨said, table⟩ := open_serves k c.state.nextChannelId built state effects
    exact ⟨_, _, info, table.trans (if_pos rfl), rfl, .of_ok built, said.trans (if_pos rfl)⟩
  | submitted => cases request
  | unhandled _ _ notOpen => rw [Stepped.opens_unhandled notOpen] at request; cases request
  | broadcast => cases request

/-- A broadcast that succeeds serves every channel. -/
theorem step_broadcasts (k : Nat) {raw : RawTemplate} {order : List UInt32} {socket : List Bool}
    (keyed : c.state.Keyed)
    (succeeds : c.Succeeds X dbTx (.templateChanged raw order socket))
    (stepped : c.step X dbTx (.templateChanged raw order socket) = some c')
    {id : UInt32} {ch : ChannelInfo} (found : c.state.channels.get? id = some ch) :
    ∃ info : JobInfo, info.BuiltFor X ch raw ∧
      c'.state.channels.get? id = some { ch with currentJob := some info } ∧
      noticesAbout k id raw.newTemplate.templateId (c.added c') =
        [.job k id info.jobId raw.newTemplate.templateId] := by
  cases step_cases stepped with
  | broadcast _ keys =>
    obtain ⟨rejobbed, whole⟩ := broadcast_tells k id keyed stepped
    have said := whole succeeds (keys.mem_iff.mpr (KeyedTable.mem_keys_of_get? found))
    generalize noticesAbout k id raw.newTemplate.templateId (c.added c') = notices at *
    cases rejobbed with
    | skipped => exact absurd rfl said
    | unsent => exact absurd rfl said
    | sent found' served built =>
      rw [found, Option.some.injEq] at found'
      subst found'
      exact ⟨_, built, served, rfl⟩

end Connection

end MiningPool
