import MiningPool.Stratum.Runs

/-!
# The jobs of a channel

The two messages of each job, as they went out on a channel, form a log with strictly
increasing job ids, and the connection judges shares by the last entry of it.
-/

namespace MiningPool

variable {X : Externals} {dbTx : Bool} {c c' : Connection} {i : Input} {pool : String}

/-! ### Messages about jobs -/

/-- The two messages of a job. -/
structure JobEntry where
  job : NewExtendedMiningJob
  prevHash : SetNewPrevHash

def JobEntry.messages (e : JobEntry) : List Message :=
  [.newExtendedMiningJob e.job, .setNewPrevHash e.prevHash]

/-- A message about a job of channel `id`. -/
def jobMessage (id : UInt32) : Effect → Option Message
  | .wire (.newExtendedMiningJob m) =>
    if m.channelId = id then some (.newExtendedMiningJob m) else none
  | .wire (.setNewPrevHash m) => if m.channelId = id then some (.setNewPrevHash m) else none
  | _ => none

/-- What was sent about the jobs of channel `id`, in order. -/
def jobMessages (id : UInt32) (effects : List Effect) : List Message :=
  effects.filterMap (jobMessage id)

theorem jobMessages_append (id : UInt32) (effects added : List Effect) :
    jobMessages id (effects ++ added) = jobMessages id effects ++ jobMessages id added :=
  List.filterMap_append

theorem jobMessages_entry (id : UInt32) {info : JobInfo} {channelId : UInt32}
    {job : NewExtendedMiningJob} {snph : SetNewPrevHash}
    (announced : info.Announced channelId job snph) :
    jobMessages id [.wire (.newExtendedMiningJob job), .wire (.setNewPrevHash snph)] =
      if channelId = id then (JobEntry.mk job snph).messages else [] := by
  by_cases same : channelId = id <;>
    simp [jobMessages, jobMessage, announced.jobChannel, announced.snphChannel, same,
      JobEntry.messages]

/-- Nothing a share leads to is about a job. -/
theorem jobMessages_share (id : UInt32) (s : ConnectionState)
    (share : SubmitSharesExtended) {added : List Effect}
    (expected : added <+: shareEffects X s share dbTx) : jobMessages id added = [] := by
  rw [jobMessages, List.filterMap_eq_nil_iff]
  intro e member
  rcases shareEffects_cases (expected.subset member) with ⟨_, rfl⟩ |
    ⟨_, _, _, _, _, _, _, _, rfl | rfl | ⟨rfl, _⟩⟩ <;> rfl

/-! ### A broadcast -/

/-- On channel `id`, the step from `(s, effects)` to `(s', effects')` issues one job. -/
def IssuesJob (id jobId : UInt32) (s s' : ConnectionState) (effects effects' : List Effect) :
    Prop :=
  ∃ ch info job snph, s.channels.get? id = some ch ∧ info.jobId = jobId ∧
    info.Announced id job snph ∧
    s'.channels.get? id = some { ch with currentJob := some info } ∧
    jobMessages id effects' = jobMessages id effects ++ (JobEntry.mk job snph).messages

/-- The loop issues one job on each channel it visits, and touches no other channel. -/
private theorem sendJobsToAllChannels_ok {template : RawTemplate} {jobId : UInt32}
    {order : List UInt32} {w w' : World ConnectionState Effect}
    (keyed : w.state.Keyed) (nodup : order.Nodup)
    (h : sendJobsToAllChannels X template jobId order w = (.ok (), w')) (id : UInt32) :
    w'.state.nextJobId = w.state.nextJobId ∧
    if id ∈ order then IssuesJob id jobId w.state w'.state w.effects w'.effects
    else w'.state.channels.get? id = w.state.channels.get? id ∧
      jobMessages id w'.effects = jobMessages id w.effects := by
  induction order generalizing w with
  | nil =>
    cases h
    simp
  | cons first order ih =>
    rw [List.nodup_cons] at nodup
    cases sendJobsToAllChannels_turn h with
    -- the loop succeeded, so every job was built and sent
    | unbuilt failed => exact absurd rfl failed
    | unsent failed => exact absurd rfl failed
    | @served channel snph job info socket found built rest =>
      obtain ⟨_, _, _, _, jobIds, announced, _⟩ := buildJobMessages_ok built
      rw [keyed first channel found] at announced
      obtain ⟨jobIdKept, touched⟩ := ih (setCurrentJob_keyed keyed) nodup.2 rest
      refine ⟨jobIdKept, ?_⟩
      simp only [setCurrentJob_get?, List.append_assoc, jobMessages_append,
        jobMessages_entry id announced, IssuesJob] at touched ⊢
      -- the channel of this turn is not visited again
      by_cases same : id = first
      · subst same
        rw [if_neg nodup.1, found, if_pos rfl] at touched
        rw [if_pos List.mem_cons_self]
        refine ⟨channel, info, job, snph, found, jobIds, announced, ?_, touched.2⟩
        rw [touched.1, Option.map_some, if_pos rfl]
      · simp only [same, Ne.symm same, if_false, Option.map_id', List.append_nil, List.mem_cons,
          false_or] at touched ⊢
        exact touched

/-! ### The log -/

/-- `log` is what `effects` say about the jobs of channel `id`, with ids up to `bound`. -/
structure IsJobLog (effects : List Effect) (id : UInt32) (bound : Nat) (log : List JobEntry) :
    Prop where
  messages : jobMessages id effects = log.flatMap JobEntry.messages
  together : ∀ e ∈ log, e.job.channelId = id ∧ e.prevHash.channelId = id ∧
    e.prevHash.jobId = e.job.jobId
  increasing : log.Pairwise fun e e' => e.job.jobId.toNat < e'.job.jobId.toNat
  bounded : ∀ e ∈ log, e.job.jobId.toNat ≤ bound

private theorem isJobLog_kept {effects effects' : List Effect} {id : UInt32} {bound bound' : Nat}
    {log : List JobEntry} (h : IsJobLog effects id bound log) (le : bound ≤ bound')
    (same : jobMessages id effects' = jobMessages id effects) :
    IsJobLog effects' id bound' log where
  messages := same.trans h.messages
  together := h.together
  increasing := h.increasing
  bounded e member := (h.bounded e member).trans le

private theorem isJobLog_issued {effects effects' : List Effect} {id : UInt32} {bound : Nat}
    {log : List JobEntry} (h : IsJobLog effects id bound log) {info : JobInfo}
    {job : NewExtendedMiningJob} {snph : SetNewPrevHash} (announced : info.Announced id job snph)
    (jobId : info.jobId.toNat = bound + 1)
    (issued : jobMessages id effects' =
      jobMessages id effects ++ (JobEntry.mk job snph).messages) :
    IsJobLog effects' id (bound + 1) (log ++ [⟨job, snph⟩]) where
  messages := by
    rw [issued, h.messages, List.flatMap_append, List.flatMap_singleton]
  together := by
    intro e member
    -- an entry of the log, or the new one
    rcases List.mem_append.mp member with old | new
    · exact h.together e old
    · obtain rfl := List.mem_singleton.mp new
      exact ⟨announced.jobChannel, announced.snphChannel,
        announced.snphJobId.trans announced.jobId.symm⟩
  increasing := by
    rw [List.pairwise_append]
    refine ⟨h.increasing, List.pairwise_singleton _ _, ?_⟩
    intro e old e' new
    obtain rfl := List.mem_singleton.mp new
    -- the ids of the log are bounded, and the new one is the bound plus one
    have := h.bounded e old
    rw [announced.jobId, jobId]
    omega
  bounded := by
    intro e member
    rcases List.mem_append.mp member with old | new
    · exact (h.bounded e old).trans (Nat.le_succ bound)
    · obtain rfl := List.mem_singleton.mp new
      rw [announced.jobId, jobId]

/-- The current job of an open channel is the last entry of its log; a channel that is
not open has no entries. -/
def EndsWith (channel : Option ChannelInfo) (id : UInt32) (log : List JobEntry) : Prop :=
  match channel with
  | none => log = []
  | some ch => ∃ earlier last info, log = earlier ++ [last] ∧ ch.currentJob = some info ∧
      info.Announced id last.job last.prevHash

/-- The input makes the connection take a job id. -/
def Input.allocatesJob : Input → Bool
  | .templateChanged .. => true
  | i => i.opens.isSome

/-- The job ids taken by some inputs, if all goes well. -/
def jobIdsAllocated (inputs : List Input) : Nat := inputs.countP Input.allocatesJob

structure Connection.JobsLogged (inputs : List Input) (c : Connection) : Prop where
  nextJobId : c.state.nextJobId = UInt32.ofNat (jobIdsAllocated inputs + 1)
  log : ∀ id, ∃ log, IsJobLog c.effects id (jobIdsAllocated inputs) log ∧
    EndsWith (c.state.channels.get? id) id log

private theorem jobIdsAllocated_idle (past : List Input) (idle : i.allocatesJob = false) :
    jobIdsAllocated (past ++ [i]) = jobIdsAllocated past := by
  rw [jobIdsAllocated, List.countP_append, List.countP_singleton, idle]
  rfl

private theorem jobIdsAllocated_succ (past : List Input) (allocates : i.allocatesJob = true) :
    jobIdsAllocated (past ++ [i]) = jobIdsAllocated past + 1 := by
  rw [jobIdsAllocated, List.countP_append, List.countP_singleton, if_pos allocates]
  rfl

private theorem opens_le_jobIds (inputs : List Input) :
    (opensOf inputs).length ≤ jobIdsAllocated inputs := by
  induction inputs with
  | nil => exact le_rfl
  | cons i inputs ih =>
    rw [opensOf, List.filterMap_cons, jobIdsAllocated, List.countP_cons]
    cases opens : i.opens with
    | none => exact ih.trans (Nat.le_add_right _ _)
    | some msg =>
      have allocates : i.allocatesJob = true := by
        cases i with
        | templateChanged => rfl
        | frame => simp [Input.allocatesJob, opens]
      rw [if_pos allocates, List.length_cons]
      exact Nat.succ_le_succ ih

/-- An input that changes neither jobs nor channels keeps the logs. -/
private theorem jobsLogged_kept {past : List Input} (holds : c.JobsLogged past)
    (idle : i.allocatesJob = false) (state : c'.state = c.state) {added : List Effect}
    (effects : c'.effects = c.effects ++ added) (none : ∀ id, jobMessages id added = []) :
    c'.JobsLogged (past ++ [i]) where
  nextJobId := by rw [state, holds.nextJobId, jobIdsAllocated_idle past idle]
  log := by
    intro id
    obtain ⟨log, isLog, ends⟩ := holds.log id
    rw [state, jobIdsAllocated_idle past idle]
    refine ⟨log, isJobLog_kept isLog le_rfl ?_, ends⟩
    rw [effects, jobMessages_append, none, List.append_nil]

private theorem nextJobId_toNat {past : List Input} (holds : c.JobsLogged past)
    (bound : jobIdsAllocated past + 1 < 2 ^ 32) :
    c.state.nextJobId.toNat = jobIdsAllocated past + 1 := by
  have size : UInt32.size = 2 ^ 32 := rfl
  rw [holds.nextJobId, UInt32.toNat_ofNat_of_lt' (by omega)]

private theorem jobsLogged_opened {past : List Input} (holds : c.JobsLogged past)
    {msg : OpenExtendedMiningChannel} {template : RawTemplate} {now : Int} {socket : List Bool}
    {snph : SetNewPrevHash} {job : NewExtendedMiningJob} {info : JobInfo}
    (fresh : c.state.channels.get? c.state.nextChannelId = none)
    (bound : jobIdsAllocated past + 1 < 2 ^ 32)
    (built : buildJobMessages X (openedChannel X c.state msg template) c.state.nextJobId template =
      .ok (snph, job, info))
    (state : c'.state = (c.state.opened X msg template).setCurrentJob c.state.nextChannelId info)
    (effects : ∃ after, c'.effects = c.effects ++
        (.wire (.openExtendedMiningChannelSuccess (openSuccess X c.state msg template)) ::
          ([.wire (.newExtendedMiningJob job), .wire (.setNewPrevHash snph)] ++ after)) ∧
      ∀ id, jobMessages id after = []) :
    c'.JobsLogged
      (past ++ [.frame (.openExtendedMiningChannel (some msg)) template now socket]) where
  nextJobId := by
    rw [state, jobIdsAllocated_succ past rfl]
    change c.state.nextJobId + 1 = _
    rw [holds.nextJobId]
    exact (UInt32.ofNat_add _ 1).symm
  log := by
    intro id
    obtain ⟨_, _, _, _, jobIds, announced, _⟩ := buildJobMessages_ok built
    obtain ⟨after, effects, none⟩ := effects
    obtain ⟨log, isLog, ends⟩ := holds.log id
    -- only the two messages of the job count
    have issued : jobMessages id c'.effects = jobMessages id c.effects ++
        if c.state.nextChannelId = id then (JobEntry.mk job snph).messages else [] := by
      have entry := jobMessages_entry id announced
      rw [effects, jobMessages_append]
      congr 1
      change jobMessages id ([_, _] ++ after) = _
      rw [jobMessages_append, none, List.append_nil, entry]
      rfl
    have table : c'.state.channels.get? id = if id = c.state.nextChannelId then
        some { openedChannel X c.state msg template with currentJob := some info }
        else c.state.channels.get? id := by
      rw [state, setCurrentJob_get?, ConnectionState.opened, KeyedTable.get?_insert]
      split
      · rfl
      · simp
    rw [jobIdsAllocated_succ past rfl]
    -- the new channel starts its log; the others keep theirs
    by_cases same : c.state.nextChannelId = id
    · subst same
      rw [if_pos rfl] at issued table
      rw [fresh] at ends
      have jobId : info.jobId.toNat = jobIdsAllocated past + 1 := by
        rw [jobIds, nextJobId_toNat holds bound]
      refine ⟨_, isJobLog_issued isLog announced jobId issued, ?_⟩
      rw [table, ends]
      exact ⟨[], ⟨job, snph⟩, info, rfl, rfl, announced⟩
    · rw [if_neg same, List.append_nil] at issued
      rw [table, if_neg (Ne.symm same)]
      exact ⟨log, isJobLog_kept isLog (Nat.le_succ _) issued, ends⟩

private theorem jobsLogged_broadcast {past : List Input} (holds : c.JobsLogged past)
    {template : RawTemplate} {order : List UInt32} {socket : List Bool}
    (keyed : c.state.Keyed) (bound : jobIdsAllocated past + 1 < 2 ^ 32)
    (succeeds : c.Succeeds X dbTx (.templateChanged template order socket))
    (stepped : c.step X dbTx (.templateChanged template order socket) = some c') :
    c'.JobsLogged (past ++ [.templateChanged template order socket]) := by
  obtain ⟨keys, result, w, ran, state, effects, whole⟩ := Connection.step_broadcast stepped
  obtain rfl := whole.mp succeeds
  have nodup : order.Nodup := keys.nodup_iff.mpr c.state.channels.unique
  have broadcast := sendJobsToAllChannels_ok keyed nodup ran
  constructor
  case nextJobId =>
    rw [state, (broadcast 0).1, jobIdsAllocated_succ past rfl]
    change c.state.nextJobId + 1 = _
    rw [holds.nextJobId]
    exact (UInt32.ofNat_add _ 1).symm
  case log =>
    intro id
    obtain ⟨log, isLog, ends⟩ := holds.log id
    have touched := (broadcast id).2
    rw [state, effects, jobIdsAllocated_succ past rfl]
    -- every open channel gets a job under the id that was taken
    by_cases open_ : id ∈ order
    · rw [if_pos open_] at touched
      obtain ⟨ch, info, job, snph, found, jobIds, announced, found', issued⟩ := touched
      have jobId : info.jobId.toNat = jobIdsAllocated past + 1 := by
        rw [jobIds, nextJobId_toNat holds bound]
      refine ⟨_, isJobLog_issued isLog announced jobId issued, ?_⟩
      rw [found']
      exact ⟨log, ⟨job, snph⟩, info, rfl, rfl, announced⟩
    · rw [if_neg open_] at touched
      rw [touched.1]
      exact ⟨log, isJobLog_kept isLog (Nat.le_succ _) touched.2, ends⟩

/-- A step that succeeds keeps the logs, as long as the ids do not wrap. -/
theorem Connection.JobsLogged.step {past : List Input} (holds : c.JobsLogged past)
    (allocated : c.Allocated X pool past) (succeeds : c.Succeeds X dbTx i)
    (stepped : c.step X dbTx i = some c') (bound : jobIdsAllocated (past ++ [i]) < 2 ^ 32) :
    c'.JobsLogged (past ++ [i]) := by
  have live := live_of_succeeds stepped succeeds
  cases step_cases stepped with
  -- a step that succeeds does not close the connection
  | unanswered _ _ dead => simp [dead] at live
  | unserved _ _ _ _ dead => simp [dead] at live
  | opened built state effects =>
    rw [jobIdsAllocated_succ past rfl] at bound
    -- a channel takes a job id, so the channel ids do not wrap either
    have few := opens_le_jobIds past
    refine jobsLogged_opened holds (allocated.next_fresh (by omega)) bound built state
      ⟨_, effects, ?_⟩
    intro id
    split <;> rfl
  | submitted added state effects expected =>
    exact jobsLogged_kept holds rfl state effects fun id => jobMessages_share id _ _ expected
  | @unhandled frame _ _ _ _ state effects notOpen =>
    have idle : ∀ template now socket,
        (Input.frame frame template now socket).allocatesJob = false := by
      intro template now socket
      cases frame with
      | openExtendedMiningChannel payload =>
        cases payload with
        | none => rfl
        | some msg => exact absurd rfl (notOpen msg)
      | _ => rfl
    exact jobsLogged_kept holds (idle _ _ _) state
      (by simpa using effects : c'.effects = c.effects ++ [])
      fun _ => rfl
  | broadcast =>
    rw [jobIdsAllocated_succ past rfl] at bound
    exact jobsLogged_broadcast holds allocated.keyed bound succeeds stepped

theorem Connection.run_jobsLogged {inputs : List Input}
    (ran : run X dbTx (new pool) inputs = some c)
    (succeeded : Execution.Along (step X dbTx) (Succeeds X dbTx) (new pool) inputs)
    (bound : jobIdsAllocated inputs < 2 ^ 32) : c.JobsLogged inputs := by
  refine (Execution.run_history_along (fun past c => c.Allocated X pool past ∧
    (jobIdsAllocated past < 2 ^ 32 → c.JobsLogged past)) ?_ ?_ succeeded ran).2 bound
  · -- the bound on the whole run bounds every part of it
    rintro past c i c' ⟨allocated, holds⟩ succeeds stepped
    refine ⟨step_allocated stepped allocated, fun bound => ?_⟩
    have bound' : jobIdsAllocated past < 2 ^ 32 := by
      rw [jobIdsAllocated, List.countP_append] at bound
      exact (Nat.le_add_right _ _).trans_lt bound
    exact (holds bound').step allocated succeeds stepped bound
  · refine ⟨allocated_new pool, fun _ => ⟨rfl, fun id => ⟨[], ?_, rfl⟩⟩⟩
    exact ⟨rfl, by simp, List.Pairwise.nil, by simp⟩

/-! ### The job a share is judged by -/

/-- After any run in which every job is built and sent, and fewer than `2 ^ 32` job ids are
taken, an open channel's current job is what its last two job messages said, under ids that
only grew; a share that quotes an earlier one is refused as stale. -/
theorem current_job_last_announced {inputs : List Input}
    (ran : Connection.run X dbTx (Connection.new pool) inputs = some c)
    (succeeded : Execution.Along (Connection.step X dbTx) (Connection.Succeeds X dbTx)
      (Connection.new pool) inputs)
    (bound : jobIdsAllocated inputs < 2 ^ 32) {id : UInt32} {ch : ChannelInfo}
    (found : c.state.channels.get? id = some ch) :
    ∃ earlier last info,
      jobMessages id c.effects = (earlier ++ [last]).flatMap JobEntry.messages ∧
      (∀ e ∈ earlier ++ [last], e.job.channelId = id ∧ e.prevHash.channelId = id ∧
        e.prevHash.jobId = e.job.jobId) ∧
      (earlier ++ [last]).Pairwise (fun e e' => e.job.jobId.toNat < e'.job.jobId.toNat) ∧
      ch.currentJob = some info ∧ info.Announced id last.job last.prevHash ∧
      ∀ e ∈ earlier, ∀ share : SubmitSharesExtended, share.channelId = id →
        share.jobId = e.job.jobId →
        c.handle [] (handleSubmitSharesExtended X share dbTx) =
          (.ok (), ⟨c.state, c.effects ++ [refused share .staleShareBeforeActivation], []⟩) := by
  obtain ⟨log, isLog, ends⟩ := (Connection.run_jobsLogged ran succeeded bound).log id
  rw [found] at ends
  obtain ⟨earlier, last, info, rfl, current, announced⟩ := ends
  refine ⟨earlier, last, info, isLog.messages, isLog.together, isLog.increasing, current,
    announced, ?_⟩
  intro e member share onChannel quotes
  -- the ids of the log only grow, so an earlier one is not the last
  have older : e.job.jobId.toNat < last.job.jobId.toNat :=
    (List.pairwise_append.mp isLog.increasing).2.2 e member last List.mem_cons_self
  have stale : info.jobId ≠ share.jobId := by
    rw [quotes, ← announced.jobId]
    intro same
    rw [same] at older
    exact lt_irrefl _ older
  have performed := handleSubmitSharesExtended_run X dbTx share
    ⟨c.state, c.effects, []⟩
  have expected : shareEffects X c.state share dbTx =
      [refused share .staleShareBeforeActivation] := by
    rw [shareEffects, onChannel, found]
    simp only [current, stale, ne_eq, not_false_eq_true, if_true]
  rw [Connection.handle, performed.writable rfl, expected]

/-- One channel, and one broadcast of the same template. -/
def broadcastInputs : List Input := regtestInputs ++ [.templateChanged regtestTemplate [0] []]

def broadcastConnection : Connection :=
  ((Connection.new regtestAddress).run regtestExternals true broadcastInputs).getD
    (Connection.new "")

/-- After the broadcast the channel's last job is the second one. -/
theorem current_job_last_announced_regtest :
    ∃ earlier last, ∃ info : JobInfo,
      jobMessages 0 broadcastConnection.effects =
        (earlier ++ [last]).flatMap JobEntry.messages ∧
      info.jobId = 2 ∧ info.Announced 0 last.job last.prevHash := by
  have ran : (Connection.new regtestAddress).run regtestExternals true broadcastInputs =
      some broadcastConnection := by decide +kernel
  have succeeded : Execution.Along (Connection.step regtestExternals true)
      (Connection.Succeeds regtestExternals true) (Connection.new regtestAddress)
      broadcastInputs := by decide +kernel
  have found : broadcastConnection.state.channels.get? 0 =
      some { regtestChannel with currentJob := some { regtestJob with jobId := 2 } } := by
    decide +kernel
  obtain ⟨earlier, last, info, messages, _, _, current, announced, _⟩ :=
    current_job_last_announced ran succeeded (by decide) found
  cases current
  exact ⟨earlier, last, _, messages, rfl, announced⟩

end MiningPool
