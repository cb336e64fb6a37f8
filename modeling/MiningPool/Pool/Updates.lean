import MiningPool.Pool.Notices

/-!
# Template updates

A connection that has seen the latest template has every channel on it, and the jobs of a
channel never go back to an older template.
-/

namespace MiningPool

variable {X : Externals} {pool : String} {p p' : Pool} {a : Action}

/-! ### Templates and channels -/

/-- The watch channel holds the last published template, and channels sit under their
ids. -/
structure Pool.Tracked (X : Externals) (pool : String) (p : Pool) : Prop where
  published : p.Published
  latest : p.published.getLast? = some p.template
  allocated : ∀ (c : Nat) pc, p.connections[c]? = some pc →
    ∃ inputs, pc.conn.Allocated X pool inputs

/-- Template ids count the published templates. -/
theorem Pool.Tracked.templateId (tracked : p.Tracked X pool) :
    p.template.newTemplate.templateId + 1 = p.published.length := by
  have last := tracked.latest
  rw [List.getLast?_eq_getElem?] at last
  -- the latest template was built under its own index
  obtain ⟨block, _, built⟩ := tracked.published.built _ _ last
  obtain ⟨_, _, templateId, _⟩ := buildRawTemplate_ok built
  have inside := (List.getElem?_eq_some_iff.mp last).1
  omega

theorem Pool.Tracked.keyed (tracked : p.Tracked X pool) {c : Nat} {pc : PoolConnection}
    (found : p.connections[c]? = some pc) :
    pc.conn.state.Keyed := by
  obtain ⟨inputs, allocated⟩ := tracked.allocated c pc found
  exact allocated.keyed

theorem Pool.Tracked.step (tracked : p.Tracked X pool) (stepped : p.step X pool a = some p') :
    p'.Tracked X pool where
  published := (step_cases stepped).published tracked.published
  latest := by
    cases step_watched stepped with
    | same published template =>
      rw [published, template]
      exact tracked.latest
    | next published template =>
      rw [published, template]
      exact List.getLast?_concat
  allocated := by
    intro c pc' found'
    cases step_shows stepped found' with
    | kept found conn =>
      rw [conn]
      exact tracked.allocated c _ found
    | accepted _ conn =>
      rw [conn]
      exact ⟨[], Connection.allocated_new pool⟩
    | framed found _ handled =>
      obtain ⟨inputs, allocated⟩ := tracked.allocated c _ found
      exact ⟨_, Connection.step_allocated handled allocated⟩
    | changed found _ _ handled =>
      obtain ⟨inputs, allocated⟩ := tracked.allocated c _ found
      exact ⟨_, Connection.step_allocated handled allocated⟩

theorem Pool.start_tracked {block : BlockTemplate} (started : Pool.start block = .ok p) :
    p.Tracked X pool where
  published := start_published started
  latest := by
    simp only [start, bind_eq_ok] at started
    obtain ⟨first, _, eq⟩ := started
    cases eq
    rfl
  allocated := by
    intro c pc found
    rw [(start_connections started).1] at found
    cases found

/-! ### The order of jobs -/

/-- The template of a job for channel `id` of connection `c`. -/
def Notice.templateFor (c : Nat) (id : UInt32) : Notice → Option Nat
  | .job c' id' _ templateId => if c' = c ∧ id' = id then some templateId else none
  | _ => none

/-- The templates of the jobs that were sent to channel `id` of connection `c`, in order. -/
def templatesFor (c : Nat) (id : UInt32) (trace : List Notice) : List Nat :=
  trace.filterMap (Notice.templateFor c id)

/-- The jobs of a step are for the template in the watch channel. -/
private theorem job_of_template {c : Nat} {id jobId : UInt32} {templateId : Nat}
    (member : .job c id jobId templateId ∈ p.notices a p') :
    templateId = p.template.newTemplate.templateId := by
  have said {c' : Nat} (member : .job c id jobId templateId ∈ p.said c' p') :
      templateId = p.template.newTemplate.templateId := by
    rcases Pool.said_cases member with ⟨_, same⟩ | ⟨_, _, same⟩ <;> cases same
    rfl
  cases a with
  | frame => exact said member
  -- the change itself is no job
  | changed =>
    rcases List.mem_cons.mp member with same | member
    · cases same
    · exact said member
  | fetch =>
    rw [Pool.notices] at member
    split at member
    · cases member
    · cases List.mem_singleton.mp member
  | _ => cases member

private theorem templatesFor_notices {c : Nat} {id : UInt32} {templateId : Nat}
    (member : templateId ∈ templatesFor c id (p.notices a p')) :
    templateId = p.template.newTemplate.templateId := by
  obtain ⟨n, member, eq⟩ := List.mem_filterMap.mp member
  cases n with
  | job c' id' jobId t =>
    obtain ⟨_, same⟩ := Option.ite_none_right_eq_some.mp eq
    cases same
    exact job_of_template member
  | _ => cases eq

/-- The templates of a channel's jobs so far, none of them newer than the latest. -/
structure Pool.Ordered (past : List Notice) (p : Pool) : Prop where
  sorted : ∀ c id, (templatesFor c id past).Pairwise (· ≤ ·)
  bounded : ∀ c id, ∀ t ∈ templatesFor c id past, t ≤ p.template.newTemplate.templateId

theorem Pool.Ordered.step {past : List Notice} (holds : p.Ordered past)
    (tracked : p.Tracked X pool) (stepped : p.step X pool a = some p') :
    p'.Ordered (past ++ p.notices a p') := by
  have grows : p.template.newTemplate.templateId ≤ p'.template.newTemplate.templateId := by
    have before := tracked.templateId
    have after := (tracked.step stepped).templateId
    have longer := (step_cases stepped).published_grows.length_le
    omega
  constructor
  case sorted =>
    intro c id
    rw [templatesFor, List.filterMap_append, List.pairwise_append]
    refine ⟨holds.sorted c id, ?_, ?_⟩
    · -- the jobs of one step are all for one template
      refine List.pairwise_of_forall_mem_list fun t ht t' ht' => ?_
      rw [templatesFor_notices ht, templatesFor_notices ht']
    · -- and it is not older than any before it
      intro t old t' new
      rw [templatesFor_notices new]
      exact holds.bounded c id t old
  case bounded =>
    intro c id t member
    rw [templatesFor, List.filterMap_append] at member
    rcases List.mem_append.mp member with old | new
    · exact (holds.bounded c id t old).trans grows
    · rw [templatesFor_notices new]
      exact grows

/-! ### Updates -/

/-- The jobs that an action makes a connection build are built, and the writes of an open
request or a broadcast go through. -/
def Pool.JobsSucceed (X : Externals) (p : Pool) : Action → Prop
  | .frame c received now socket => ∀ pc ∈ p.connections[c]?,
    (Input.frame received p.template now socket).opens.isSome →
      pc.conn.Succeeds X true (.frame received p.template now socket)
  | .changed c order socket => ∀ pc ∈ p.connections[c]?,
    pc.conn.Succeeds X true (.templateChanged p.template order socket)
  | _ => True

instance (X : Externals) (p : Pool) : ∀ a, Decidable (p.JobsSucceed X a)
  | .frame .. => inferInstanceAs (Decidable (∀ _ ∈ _, _))
  | .changed .. => inferInstanceAs (Decidable (∀ _ ∈ _, _))
  | .accept | .perform _ | .hangUp _ | .newThread _ | .waitNextFails | .waitNextTimesOut
  | .waitNext _ | .fetch _ | .recvSolution => isTrue trivial

/-- The current job of the channel was built for it from that template. -/
def ChannelInfo.Serves (X : Externals) (raw : RawTemplate) (ch : ChannelInfo) : Prop :=
  ∃ job, ch.currentJob = some job ∧ job.BuiltFor X ch raw

/-- A connection with nothing unseen has all its channels on the latest template. -/
def Pool.UpToDate (X : Externals) (p : Pool) : Prop :=
  ∀ (c : Nat) pc, p.connections[c]? = some pc → pc.seen ≤ p.published.length ∧
    (pc.seen = p.published.length → ∀ id ch, pc.conn.state.channels.get? id = some ch →
      ch.Serves X p.template)

/-- An open request that succeeds adds a channel on the template it came with. -/
private theorem framed_serves {conn conn' : Connection} {i : Input} {id : UInt32}
    {ch : ChannelInfo} (keyed : conn.state.Keyed)
    (succeeds : i.opens.isSome → conn.Succeeds X true i)
    (stepped : conn.step X true i = some conn')
    (open_ : conn'.state.channels.get? id = some ch) :
    conn.state.channels.get? id = some ch ∨ ch.Serves X i.template := by
  have tells := Connection.step_tells 0 id keyed stepped
  generalize noticesAbout 0 id i.template.newTemplate.templateId (conn.added conn') = said at tells
  cases tells with
  | nothing same => exact .inl (same ▸ open_)
  | opens _ found current built =>
    rw [open_, Option.some.injEq] at found
    subst found
    exact .inr ⟨_, current, built⟩
  -- a request that succeeds does not end the connection
  | fails request dead =>
    have live := Connection.live_of_succeeds stepped (succeeds request)
    rw [dead] at live
    cases live
  | broadcasts _ rejobbed =>
    cases rejobbed with
    | skipped same => exact .inl (same ▸ open_)
    -- the job is recorded before it is sent, so a failed write does not matter here
    | unsent _ served built =>
      rw [open_, Option.some.injEq] at served
      subst served
      exact .inr ⟨_, rfl, built⟩
    | sent _ served built =>
      rw [open_, Option.some.injEq] at served
      subst served
      exact .inr ⟨_, rfl, built⟩

theorem Pool.UpToDate.step (holds : p.UpToDate X) (tracked : p.Tracked X pool)
    (succeeds : p.JobsSucceed X a) (stepped : p.step X pool a = some p') : p'.UpToDate X := by
  intro c pc' found'
  have watched := step_watched stepped
  have grows := (step_cases stepped).published_grows.length_le
  -- only a publication puts connections behind, and it touches none of them
  have unpublished (silent : .published ∉ p.notices a p') :
      p'.published = p.published ∧ p'.template = p.template := by
    cases watched with
    | same published template => exact ⟨published, template⟩
    | next _ _ _ notices => exact absurd (notices ▸ List.mem_singleton_self _) silent
  cases step_shows stepped found' with
  | @kept pc found conn seen =>
    obtain ⟨behind, current⟩ := holds c pc found
    rw [conn, seen]
    cases watched with
    | same published template =>
      rw [published, template]
      exact ⟨behind, current⟩
    | next published =>
      -- a connection that had seen everything has not seen the new template
      have longer := congrArg List.length published
      rw [List.length_append, List.length_singleton] at longer
      exact ⟨by omega, fun seen => by omega⟩
  -- a new connection has no channels
  | accepted _ conn seen =>
    have counted := (tracked.step stepped).templateId
    refine ⟨by omega, fun _ id ch open_ => ?_⟩
    rw [conn] at open_
    cases open_
  | @framed pc received now socket found action handled seen =>
    subst action
    obtain ⟨behind, current⟩ := holds c pc found
    -- the new channel is served under the latest template, whether or not it was seen
    obtain ⟨published, template⟩ := unpublished (published_not_said p p' c)
    rw [published, template, seen]
    refine ⟨behind, fun upToDate id ch open_ => ?_⟩
    rcases framed_serves (tracked.keyed found) (succeeds pc found) handled open_ with old | serves
    · exact current upToDate id ch old
    · exact serves
  | @changed pc order socket found action unseen handled seen =>
    subst action
    have keyed := tracked.keyed found
    obtain ⟨published, template⟩ := unpublished
      (by simpa [notices] using published_not_said p p' c)
    rw [published, template, seen]
    refine ⟨le_rfl, fun _ id ch open_ => ?_⟩
    rcases framed_serves keyed (fun request => by cases request) handled open_ with old | serves
    · -- every channel that was open gets a job of the latest template
      obtain ⟨info, built, served, _⟩ := Connection.step_broadcasts 0 keyed (succeeds pc found)
        handled old
      rw [open_, Option.some.injEq] at served
      exact ⟨info, by rw [served], built⟩
    · exact serves

/-! ### Runs -/

/-- In every run of the pool in which jobs are built and sent, however publications, frames
and template changes interleave, the current job of each channel of a connection that has
seen everything is what the last published template makes for that channel, and the
templates of a channel's jobs never go back. -/
theorem no_update_lost {block : BlockTemplate} {actions : List Action} {p₀ : Pool}
    (started : Pool.start block = .ok p₀) (ran : Pool.run X pool p₀ actions = some p)
    (succeeded : Execution.Along (Pool.step X pool) (Pool.JobsSucceed X) p₀ actions) :
    p.published.getLast? = some p.template ∧
    (∀ (c : Nat) pc, p.connections[c]? = some pc → pc.seen = p.published.length →
      ∀ id ch, pc.conn.state.channels.get? id = some ch →
        ∃ snph job info, ch.currentJob = some info ∧
          buildJobMessages X ch info.jobId p.template = .ok (snph, job, info)) ∧
    ∀ c id, (templatesFor c id (Pool.trace X pool p₀ actions)).Pairwise (· ≤ ·) := by
  have always := Execution.run_outputs_along Pool.notices
    (fun past p => p.Tracked X pool ∧ p.Ordered past ∧ p.UpToDate X) ?_ ?_ succeeded ran
  · obtain ⟨tracked, ordered, upToDate⟩ := always
    refine ⟨tracked.latest, fun c pc found seen id ch open_ => ?_, ordered.sorted⟩
    obtain ⟨info, current, snph, job, built⟩ := (upToDate c pc found).2 seen id ch open_
    exact ⟨snph, job, info, current, built⟩
  · rintro past p a p' ⟨tracked, ordered, upToDate⟩ succeeds stepped
    exact ⟨tracked.step stepped, ordered.step tracked stepped,
      upToDate.step tracked succeeds stepped⟩
  · refine ⟨Pool.start_tracked started, ⟨fun _ _ => List.Pairwise.nil, nofun⟩, ?_⟩
    intro c pc found
    rw [(Pool.start_connections started).1] at found
    cases found

/-- A block of a minute later. -/
def laterBlock : BlockTemplate :=
  { regtestBlock with header := { regtestBlock.header with time := 1700000060 } }

/-- Connection 0 opens a channel, another between the second template and its notification, and
then is notified. -/
def reopenActions : List Action :=
  openActions ++ [.newThread true, .waitNext laterBlock, .fetch true,
    .frame 0 (.openExtendedMiningChannel (some regtestOpen)) 1700000060 [],
    .perform 0, .perform 0, .perform 0, .perform 0, .changed 0 [1, 0] []]

/-- Both channels are on the second template. -/
theorem no_update_lost_regtest : ∃ pc, (regtestAfter reopenActions).connections[0]? = some pc ∧
    ∀ id ∈ [0, 1], ∃ ch snph job info, pc.conn.state.channels.get? id = some ch ∧
      ch.currentJob = some info ∧ info.ntime = 1700000060 ∧
      buildJobMessages regtestExternals ch info.jobId (regtestAfter reopenActions).template =
        .ok (snph, job, info) := by
  have checks : (Pool.run regtestExternals regtestAddress regtestPool reopenActions).isSome ∧
      Execution.Along (Pool.step regtestExternals regtestAddress)
        (Pool.JobsSucceed regtestExternals) regtestPool reopenActions ∧
      (regtestAfter reopenActions).template.setNewPrevHash.headerTimestamp = 1700000060 ∧
      ((regtestAfter reopenActions).connections[0]?).any (fun pc =>
        pc.seen = (regtestAfter reopenActions).published.length ∧
          [0, 1].all fun id => (pc.conn.state.channels.get? id).isSome) = true := by
    decide +kernel
  obtain ⟨runs, succeeded, time, seen⟩ := checks
  obtain ⟨pc, found, upToDate, isOpen⟩ := Execution.exists_of_any seen
  obtain ⟨_, current, _⟩ := no_update_lost regtestPool_started (regtestAfter_ran runs) succeeded
  refine ⟨pc, found, fun id member => ?_⟩
  obtain ⟨ch, open_⟩ := Option.isSome_iff_exists.mp (List.all_eq_true.mp isOpen id member)
  obtain ⟨snph, job, info, serves, built⟩ := current 0 pc found upToDate id ch open_
  obtain ⟨_, _, _, _, _, _, sourced⟩ := buildJobMessages_ok built
  exact ⟨ch, snph, job, info, open_, serves, sourced.ntime.trans time, built⟩

end MiningPool
