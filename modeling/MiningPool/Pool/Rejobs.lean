import MiningPool.Pool.Updates

/-!
# Jobs for the same template

A frame is handled under the latest template without marking it as seen, so a channel that
was opened in between is served a second time when the connection comes to see it. This
is the only way for a channel to get two jobs for one template.
-/

namespace MiningPool

open History

variable {X : Externals} {pool : String} {p p' : Pool} {a : Action} {past : List Notice}

/-! ### Once per template -/

/-- A job for channel `id` of connection `c`, built from that template. -/
def Notice.IsJob (c : Nat) (id : UInt32) (templateId : Nat) (n : Notice) : Prop :=
  ∃ jobId, n = .job c id jobId templateId

/-- Connection `c` opens a channel. -/
def Notice.IsOpened (c : Nat) (n : Notice) : Prop := ∃ id, n = .opened c id

/-- No channel gets two jobs for one template, unless its id was given to a new channel
in between. -/
def JobsOnce (trace : List Notice) : Prop :=
  ∀ c id templateId, Separated (Notice.IsJob c id templateId) (· = .opened c id)
    (Notice.IsJob c id templateId) trace

/-- The channel got the job with that id, and for that template. -/
def Received (c : Nat) (id jobId : UInt32) (templateId : Nat) (trace : List Notice) : Prop :=
  Since (· = .job c id jobId templateId) (· = .opened c id) trace

/-- The next step of connection `c` may answer the share as stale. -/
def Pool.AnswersStale (X : Externals) (pool : String) (p : Pool) (c : Nat)
    (share : SubmitSharesExtended) : Prop :=
  ∃ now socket p' pc pc',
    p.step X pool (.frame c (.submitSharesExtended (some share)) now socket) = some p' ∧
      p.connections[c]? = some pc ∧ p'.connections[c]? = some pc' ∧
      refused share .staleShareBeforeActivation ∈ pc.conn.added pc'.conn

/-- A share found on a job for the latest template is not answered as stale. -/
def Pool.KeepsFresh (X : Externals) (pool : String) (trace : List Notice) (p : Pool) : Prop :=
  ∀ c (share : SubmitSharesExtended),
    Received c share.channelId share.jobId p.template.newTemplate.templateId trace →
      ¬p.AnswersStale X pool c share

/-- After a connection opens a channel, a template is published before the connection sees
a template change. -/
def OpensPublished (trace : List Notice) : Prop :=
  ∀ c, Separated (Notice.IsOpened c) (· = .published) (· = .changed c) trace

/-! ### Notices of a step -/

private theorem isJob_isAbout {c : Nat} {id : UInt32} {templateId : Nat} (n : Notice)
    (isJob : n.IsJob c id templateId) : n.isAbout c id = true := by
  obtain ⟨jobId, rfl⟩ := isJob
  simp [Notice.isAbout]

private theorem opened_isAbout {c : Nat} {id : UInt32} (n : Notice) (opened : n = .opened c id) :
    n.isAbout c id = true := by
  subst opened
  simp [Notice.isAbout]

private theorem job_isAbout {c : Nat} {id jobId : UInt32} {templateId : Nat} (n : Notice)
    (job : n = .job c id jobId templateId) : n.isAbout c id = true := by
  subst job
  simp [Notice.isAbout]

/-- Whether a job was received depends on the notices about its channel only. -/
private theorem received_append {c : Nat} {id jobId : UInt32} {templateId : Nat}
    {notices : List Notice} : Received c id jobId templateId (past ++ notices) ↔
      Received c id jobId templateId (past ++ notices.filter (Notice.isAbout c id)) :=
  since_append job_isAbout opened_isAbout

private theorem received_silent {c : Nat} {id jobId : UInt32} {templateId : Nat}
    {notices : List Notice} (silent : notices.filter (Notice.isAbout c id) = []) :
    Received c id jobId templateId (past ++ notices) ↔ Received c id jobId templateId past := by
  rw [received_append, silent, List.append_nil]

/-- What was not said before about a channel that is not there. -/
def Pool.Unheard (past : List Notice) (p : Pool) : Prop :=
  ∀ c : Nat, p.connections[c]? = none → ∀ id, past.filter (Notice.isAbout c id) = []

theorem Pool.Unheard.not_about (holds : p.Unheard past) {c : Nat}
    (absent : p.connections[c]? = none) {n : Notice} (member : n ∈ past) {id : UInt32}
    (about : n.isAbout c id = true) : False := by
  have heard := List.mem_filter.mpr ⟨member, about⟩
  rw [holds c absent id] at heard
  cases heard

theorem Pool.Unheard.step (holds : p.Unheard past) (stepped : p.step X pool a = some p') :
    p'.Unheard (past ++ p.notices a p') := by
  intro c absent' id
  have absent := (step_cases stepped).absent absent'
  rw [List.filter_append, holds c absent id,
    notices_of_other ((step_cases stepped).inputFor_eq_none absent) id, List.append_nil]

private theorem since_isJob {c : Nat} {id : UInt32} {templateId : Nat} :
    Since (Notice.IsJob c id templateId) (· = .opened c id) past ↔
      ∃ jobId, Received c id jobId templateId past := by
  constructor
  · rintro ⟨before, _, after, eq, ⟨jobId, rfl⟩, kept⟩
    exact ⟨jobId, before, _, after, eq, rfl, kept⟩
  · rintro ⟨jobId, before, n, after, eq, job, kept⟩
    exact ⟨before, n, after, eq, ⟨jobId, job⟩, kept⟩

/-- A channel that was just opened has received just its first job. -/
private theorem received_opened {c : Nat} {id jobId jobId' : UInt32} {templateId : Nat} :
    Received c id jobId templateId (past ++ [.opened c id, .job c id jobId' templateId]) ↔
      jobId = jobId' := by
  rw [Received, List.append_cons, since_concat, since_concat]
  simp [eq_comm]

private theorem received_job {c : Nat} {id jobId jobId' : UInt32} {templateId : Nat} :
    Received c id jobId templateId (past ++ [.job c id jobId' templateId]) ↔
      jobId = jobId' ∨ Received c id jobId templateId past := by
  rw [Received, since_concat]
  simp [eq_comm, Received]

/-- Opening a channel keeps jobs apart, also when the request fails half way. -/
private theorem separated_opened {c : Nat} {id jobId : UInt32} {templateId t : Nat}
    {notices : List Notice}
    (once : Separated (Notice.IsJob c id t) (· = .opened c id) (Notice.IsJob c id t) past)
    (part : notices <+: [.opened c id, .job c id jobId templateId]) :
    Separated (Notice.IsJob c id t) (· = .opened c id) (Notice.IsJob c id t)
      (past ++ notices) := by
  -- the id is that of a new channel from here on
  have opened : Separated (Notice.IsJob c id t) (· = .opened c id) (Notice.IsJob c id t)
      (past ++ [.opened c id]) := by
    rw [separated_concat]
    refine ⟨once, ?_⟩
    rintro ⟨_, isJob⟩
    cases isJob
  -- the request may end before either message, between them, or after both
  rcases List.prefix_cons_iff.mp part with rfl | ⟨rest, rfl, within⟩
  · simpa using once
  rcases List.prefix_cons_iff.mp within with rfl | ⟨none, rfl, last⟩
  · exact opened
  · obtain rfl := List.prefix_nil.mp last
    rw [List.append_cons, separated_concat]
    refine ⟨opened, fun _ => ?_⟩
    rw [since_concat]
    rintro (⟨_, isJob⟩ | ⟨_, notOpened⟩)
    · cases isJob
    · exact notOpened rfl

/-! ### When opens and template changes are apart -/

/-- What holds of a run in which opens and template changes are apart: a job for the latest
template is the channel's current one, and it came with a template change, unless the
connection opened a channel since the template was published. -/
structure Pool.Rejobless (past : List Notice) (p : Pool) : Prop where
  once : JobsOnce past
  current : ∀ (c : Nat) pc, p.connections[c]? = some pc → pc.conn.live = true → ∀ id jobId,
    Received c id jobId p.template.newTemplate.templateId past →
      ∃ ch info, pc.conn.state.channels.get? id = some ch ∧ ch.currentJob = some info ∧
        info.jobId = jobId
  recent : ∀ (c : Nat) pc, p.connections[c]? = some pc → pc.conn.live = true → ∀ id jobId,
    Received c id jobId p.template.newTemplate.templateId past →
      pc.seen = p.published.length ∨ Since (Notice.IsOpened c) (· = .published) past

/-- A job that came with the latest template came before the template was published. -/
private theorem received_next {raw : RawTemplate} (tracked : p.Tracked X pool)
    (ordered : p.Ordered past) (stepped : p.step X pool a = some p')
    (published : p'.published = p.published ++ [raw]) {c : Nat} {id jobId : UInt32}
    (notices : p.notices a p' = [.published]) :
    ¬Received c id jobId p'.template.newTemplate.templateId (past ++ p.notices a p') := by
  intro received
  have silent : (p.notices a p').filter (Notice.isAbout c id) = [] := by
    rw [notices]
    rfl
  rw [received_silent silent] at received
  obtain ⟨n, member, rfl⟩ := received.mem
  have old := ordered.bounded c id p'.template.newTemplate.templateId
    (List.mem_filterMap.mpr ⟨_, member, by simp [Notice.templateFor]⟩)
  -- template ids count the publications, so this one is larger than any said before
  have before := tracked.templateId
  have after := (tracked.step stepped).templateId
  have longer := congrArg List.length published
  rw [List.length_append, List.length_singleton] at longer
  omega

/-- No job for the latest template was received by a connection that has yet to see it. -/
private theorem unseen_not_received (holds : p.Rejobless past) {c : Nat} {pc : PoolConnection}
    (found : p.connections[c]? = some pc) (live : pc.conn.live = true)
    (unseen : pc.seen ≠ p.published.length)
    (apart : ¬Since (Notice.IsOpened c) (· = .published) past) (id jobId : UInt32) :
    ¬Received c id jobId p.template.newTemplate.templateId past := by
  intro received
  rcases holds.recent c pc found live id jobId received with seen | since
  · exact unseen seen
  · exact apart since

private theorem opens_apart {notices : List Notice} {c : Nat}
    (spaced : OpensPublished (past ++ .changed c :: notices)) :
    ¬Since (Notice.IsOpened c) (· = .published) past := by
  have before := spaced c
  rw [List.append_cons] at before
  exact (separated_concat past _).mp before.of_append |>.2 rfl

theorem Pool.Rejobless.once_step (holds : p.Rejobless past) (tracked : p.Tracked X pool)
    (spaced : OpensPublished (past ++ p.notices a p')) (stepped : p.step X pool a = some p') :
    JobsOnce (past ++ p.notices a p') := by
  intro c id t
  -- only the notices about this channel matter
  rw [separated_append (r := Notice.isAbout c id) isJob_isAbout opened_isAbout isJob_isAbout]
  have silently (silent : (p.notices a p').filter (Notice.isAbout c id) = []) :
      Separated (Notice.IsJob c id t) (· = .opened c id) (Notice.IsJob c id t)
        (past ++ (p.notices a p').filter (Notice.isAbout c id)) := by
    rw [silent, List.append_nil]
    exact holds.once c id t
  cases found' : p'.connections[c]? with
  | none =>
    have absent := (step_cases stepped).absent found'
    exact silently (notices_of_other ((step_cases stepped).inputFor_eq_none absent) id)
  | some pc' =>
    cases step_shows stepped found' with
    | kept _ _ _ silent => exact silently (silent id)
    | accepted _ _ _ silent => exact silently (silent id)
    -- a frame either opens the channel, whose id is then new, or says nothing of it
    | framed found action handled _ said =>
      have tells := Connection.step_tells c id (tracked.keyed found) handled
      rw [Input.template, ← said id] at tells
      generalize (p.notices a p').filter (Notice.isAbout c id) = notices at *
      cases tells with
      | nothing => exact silently rfl
      | opens => exact separated_opened (holds.once c id t) (List.prefix_refl _)
      | fails _ _ part => exact separated_opened (holds.once c id t) part
      | broadcasts broadcast => cases broadcast
    -- a template change serves every channel, and none of them has a job for this
    -- template yet: the connection had not seen it, and opened nothing since
    | @changed pc order socket found action unseen handled _ said =>
      subst action
      have none := unseen_not_received holds found (Connection.step_live handled) unseen
        (opens_apart spaced) id
      have tells := Connection.step_tells c id (tracked.keyed found) handled
      rw [Input.template, ← said id] at tells
      generalize (p.notices (.changed c order socket) p').filter (Notice.isAbout c id) = notices
        at *
      cases tells with
      | nothing => exact silently rfl
      | opens request => cases request
      | fails request => cases request
      | broadcasts _ rejobbed =>
        cases rejobbed with
        | skipped => exact silently rfl
        | unsent => exact silently rfl
        | sent =>
          rw [separated_concat]
          refine ⟨holds.once c id t, ?_⟩
          rintro ⟨_, same⟩ since
          cases same
          obtain ⟨jobId, received⟩ := since_isJob.mp since
          exact none jobId received

/-- What a received job for the latest template tells after a step. -/
private theorem Pool.Rejobless.received_step (holds : p.Rejobless past) (tracked : p.Tracked X pool)
    (ordered : p.Ordered past) (unheard : p.Unheard past)
    (spaced : OpensPublished (past ++ p.notices a p')) (stepped : p.step X pool a = some p')
    {c : Nat} {pc' : PoolConnection} (found' : p'.connections[c]? = some pc')
    (live : pc'.conn.live = true) {id jobId : UInt32}
    (received : Received c id jobId p'.template.newTemplate.templateId
      (past ++ p.notices a p')) :
    (∃ ch info, pc'.conn.state.channels.get? id = some ch ∧ ch.currentJob = some info ∧
      info.jobId = jobId) ∧
    (pc'.seen = p'.published.length ∨
      Since (Notice.IsOpened c) (· = .published) (past ++ p.notices a p')) := by
  cases step_watched stepped with
  -- no channel has a job for a template that was published just now
  | next published template connections notices =>
    exact absurd received (received_next tracked ordered stepped published notices)
  | same published template unpublished =>
    rw [template] at received
    rw [published]
    have later (since : Since (Notice.IsOpened c) (· = .published) past) :
        Since (Notice.IsOpened c) (· = .published) (past ++ p.notices a p') :=
      since.append fun y member same => unpublished (same ▸ member)
    cases step_shows stepped found' with
    | kept found conn seen silent =>
      rw [received_silent (silent id)] at received
      rw [conn] at live ⊢
      rw [seen]
      exact ⟨holds.current c _ found live id jobId received,
        (holds.recent c _ found live id jobId received).imp_right later⟩
    -- a connection that was just accepted has heard nothing
    | accepted absent _ _ silent =>
      rw [received_silent (silent id)] at received
      obtain ⟨_, member, rfl⟩ := received.mem
      exact (unheard.not_about absent member (job_isAbout _ rfl)).elim
    | @framed pc frame now socket found action handled seen said =>
      have wasLive := Connection.step_live handled
      have tells := Connection.step_tells c id (tracked.keyed found) handled
      rw [received_append, said id] at received
      rw [seen]
      have mentioned : ∀ n ∈ noticesAbout c id p.template.newTemplate.templateId
          (pc.conn.added pc'.conn), n ∈ p.notices a p' := by
        intro n member
        rw [← said id] at member
        exact List.mem_of_mem_filter member
      rw [Input.template] at tells
      generalize noticesAbout c id p.template.newTemplate.templateId
        (pc.conn.added pc'.conn) = notices at received tells mentioned
      cases tells with
      | nothing same =>
        rw [List.append_nil] at received
        rw [same]
        exact ⟨holds.current c _ found wasLive id jobId received,
          (holds.recent c _ found wasLive id jobId received).imp_right later⟩
      -- the job of the new channel came without a template change, but since an open
      | opens _ open_ current =>
        obtain rfl := received_opened.mp received
        refine ⟨⟨_, _, open_, current, rfl⟩, .inr ?_⟩
        refine since_of_mem (mentioned _ List.mem_cons_self) ⟨id, rfl⟩ ?_ past
        rintro _ member rfl
        exact unpublished member
      -- the connection did not survive
      | fails _ dead =>
        rw [dead] at live
        cases live
      | broadcasts broadcast => cases broadcast
    | @changed pc order socket found action unseen handled seen said =>
      subst action
      have none := unseen_not_received holds found (Connection.step_live handled) unseen
        (opens_apart spaced) id
      have tells := Connection.step_tells c id (tracked.keyed found) handled
      rw [received_append, said id] at received
      rw [Input.template] at tells
      generalize noticesAbout c id p.template.newTemplate.templateId
        (pc.conn.added pc'.conn) = notices at received tells
      refine ⟨?_, .inl seen⟩
      -- a job that was there before would be for a template that was not seen
      have silently (received : Received c id jobId p.template.newTemplate.templateId
          (past ++ [])) : False := by
        rw [List.append_nil] at received
        exact none jobId received
      cases tells with
      | nothing => exact (silently received).elim
      | opens request => cases request
      | fails request => cases request
      | broadcasts _ rejobbed =>
        cases rejobbed with
        | skipped => exact (silently received).elim
        | unsent => exact (silently received).elim
        | sent _ served =>
          rcases received_job.mp received with rfl | old
          · exact ⟨_, _, served, rfl, rfl⟩
          · exact absurd old (none jobId)

theorem Pool.Rejobless.step (holds : p.Rejobless past) (tracked : p.Tracked X pool)
    (ordered : p.Ordered past) (unheard : p.Unheard past)
    (spaced : OpensPublished (past ++ p.notices a p')) (stepped : p.step X pool a = some p') :
    p'.Rejobless (past ++ p.notices a p') where
  once := holds.once_step tracked spaced stepped
  current _ _ found' live _ _ received :=
    (holds.received_step tracked ordered unheard spaced stepped found' live received).1
  recent _ _ found' live _ _ received :=
    (holds.received_step tracked ordered unheard spaced stepped found' live received).2

/-! ### When they are not -/

/-- A connection that opened a channel since the latest template was published has a channel
that received a job for it. -/
def Pool.OpensServed (past : List Notice) (p : Pool) : Prop :=
  ∀ (c : Nat) pc, p.connections[c]? = some pc → pc.conn.live = true →
    Since (Notice.IsOpened c) (· = .published) past →
      ∃ id ch jobId, pc.conn.state.channels.get? id = some ch ∧
        Received c id jobId p.template.newTemplate.templateId past

/-- While no channel gets two jobs for one template, opens and template changes are apart:
a template change would serve the channel that was opened once more. -/
private theorem apart_step (apart : OpensPublished past) (served : p.OpensServed past)
    (tracked : p.Tracked X pool) (once : JobsOnce (past ++ p.notices a p'))
    (succeeds : p.JobsSucceed X a) (stepped : p.step X pool a = some p') :
    OpensPublished (past ++ p.notices a p') := by
  intro c
  cases a with
  | changed c' order socket =>
    have apart_ : Separated (Notice.IsOpened c) (· = .published) (· = .changed c)
        (past ++ [.changed c']) := by
      rw [separated_concat]
      -- otherwise a channel that was opened since has its job, and gets another
      refine ⟨apart c, fun same since => ?_⟩
      cases same
      obtain ⟨pc, pc', found, found', _, handled, _, said⟩ := Pool.step_changed stepped
      obtain ⟨id, ch, jobId, open_, received⟩ :=
        served c pc found (Connection.step_live handled) since
      obtain ⟨info, _, _, again⟩ := Connection.step_broadcasts c (tracked.keyed found)
        (succeeds pc found) handled open_
      have twice := once c id p.template.newTemplate.templateId
      rw [separated_append (r := Notice.isAbout c id) isJob_isAbout opened_isAbout isJob_isAbout,
        said id, again, separated_concat] at twice
      exact twice.2 ⟨_, rfl⟩ (since_isJob.mpr ⟨jobId, received⟩)
    rw [Pool.notices, List.append_cons]
    apply apart_.append
    rintro _ member rfl
    exact Pool.changed_not_said p p' c c' member
  -- the other actions say nothing of template changes
  | frame c' received now socket =>
    apply (apart c).append
    rintro _ member rfl
    exact Pool.changed_not_said p p' c c' member
  | fetch ok =>
    apply (apart c).append
    rintro _ member rfl
    rw [Pool.notices] at member
    split at member
    · cases member
    · cases List.mem_singleton.mp member
  | _ => exact (apart c).append (by simp [Pool.notices])

private theorem served_step (served : p.OpensServed past) (tracked : p.Tracked X pool)
    (unheard : p.Unheard past) (apart : OpensPublished (past ++ p.notices a p'))
    (stepped : p.step X pool a = some p') : p'.OpensServed (past ++ p.notices a p') := by
  intro c pc' found' live since
  cases Pool.step_watched stepped with
  -- after a publication nothing was opened since
  | next published template connections notices =>
    rw [notices, since_concat] at since
    rcases since with ⟨_, isOpened⟩ | ⟨_, unpublished⟩
    · cases isOpened
    · exact absurd rfl unpublished
  | same published template unpublished =>
    rw [template]
    -- nothing opened in this step
    have before (silent : ∀ id, .opened c id ∉ (p.notices a p').filter (Notice.isAbout c id)) :
        Since (Notice.IsOpened c) (· = .published) past := by
      apply since.of_append
      rintro _ member ⟨id, rfl⟩
      exact silent id (List.mem_filter.mpr ⟨member, opened_isAbout _ rfl⟩)
    -- a channel that has its job keeps it where nothing is said about it
    have kept {pc : PoolConnection} (found : p.connections[c]? = some pc)
        (wasLive : pc.conn.live = true)
        (same : ∀ id, pc'.conn.state.channels.get? id = pc.conn.state.channels.get? id)
        (silent : ∀ id, (p.notices a p').filter (Notice.isAbout c id) = []) :
        ∃ id ch jobId, pc'.conn.state.channels.get? id = some ch ∧
          Received c id jobId p.template.newTemplate.templateId (past ++ p.notices a p') := by
      obtain ⟨id, ch, jobId, open_, received⟩ :=
        served c pc found wasLive (before fun id => by simp [silent id])
      exact ⟨id, ch, jobId, (same id).trans open_, (received_silent (silent id)).mpr received⟩
    cases Pool.step_shows stepped found' with
    | kept found conn seen silent =>
      exact kept found (conn ▸ live) (fun id => by rw [conn]) silent
    | accepted absent _ _ silent =>
      obtain ⟨_, member, id, rfl⟩ := (before fun id => by simp [silent id]).mem
      exact (unheard.not_about absent member (opened_isAbout _ rfl)).elim
    | @framed pc frame now socket found action handled seen said =>
      -- an open request that is answered brings a channel with a job
      by_cases request : (Input.frame frame p.template now socket).opens.isSome
      · obtain ⟨id, ch, info, open_, _, _, news⟩ := Connection.step_opens c handled live request
        refine ⟨id, ch, info.jobId, open_, ?_⟩
        rw [Input.template] at news
        rw [received_append, said id, news]
        exact received_opened.mpr rfl
      · have quiet (id : UInt32) : pc'.conn.state.channels.get? id =
            pc.conn.state.channels.get? id ∧
            (p.notices a p').filter (Notice.isAbout c id) = [] := by
          have tells := Connection.step_tells c id (tracked.keyed found) handled
          rw [Input.template, ← said id] at tells
          generalize (p.notices a p').filter (Notice.isAbout c id) = notices at tells
          cases tells with
          | nothing same => exact ⟨same, rfl⟩
          | opens open_ => exact absurd open_ request
          | fails open_ => exact absurd open_ request
          | broadcasts broadcast => cases broadcast
        exact kept found (Connection.step_live handled) (fun id => (quiet id).1)
          (fun id => (quiet id).2)
    | @changed pc order socket found action unseen handled seen said =>
      subst action
      -- no template change follows an open in this run
      refine absurd (before fun id => ?_) (opens_apart apart)
      have tells := Connection.step_tells c id (tracked.keyed found) handled
      rw [Input.template, ← said id] at tells
      generalize (p.notices (.changed c order socket) p').filter (Notice.isAbout c id) = notices
        at tells
      cases tells with
      | nothing => exact List.not_mem_nil
      | opens request => cases request
      | fails request => cases request
      | broadcasts _ rejobbed => cases rejobbed <;> simp

/-! ### Stale shares -/

/-- A share is refused as stale only when it does not quote the current job. -/
private theorem not_current_of_stale {s : ConnectionState} {share : SubmitSharesExtended}
    {dbTx : Bool} (stale : refused share .staleShareBeforeActivation ∈ shareEffects X s share dbTx)
    {ch : ChannelInfo} {info : JobInfo} (open_ : s.channels.get? share.channelId = some ch)
    (current : ch.currentJob = some info) : info.jobId ≠ share.jobId := by
  intro quoted
  simp only [shareEffects, open_, current, quoted, ne_eq, not_true_eq_false, if_false] at stale
  -- past the job id, a share is refused for its difficulty only
  split at stale
  · cases stale
  · unfold judgement at stale
    split at stale
    · simp only [List.mem_append, List.mem_singleton] at stale
      rcases stale with (solution | answer) | credit
      · split at solution
        · cases List.mem_singleton.mp solution
        · cases solution
      · cases answer
      · split at credit
        · cases List.mem_singleton.mp credit
        · cases credit
    · cases List.mem_singleton.mp stale

/-- What is answered as stale went through the share handler of a live connection. -/
private theorem answersStale_effects {c : Nat} {share : SubmitSharesExtended}
    (answers : p.AnswersStale X pool c share) :
    ∃ pc, p.connections[c]? = some pc ∧ pc.conn.live = true ∧
      refused share .staleShareBeforeActivation ∈ shareEffects X pc.conn.state share true := by
  obtain ⟨now, socket, p', pc, pc', stepped, found, found', stale⟩ := answers
  refine ⟨pc, found, ?_⟩
  -- only the frame of this connection adds effects to it
  cases Pool.step_cases stepped with
  | frame found₁ idle handled =>
    rw [found, Option.some.injEq] at found₁
    subst found₁
    rcases getElem?_set_cases found found' with ⟨_, _, rfl⟩ | ⟨other, _⟩
    · refine ⟨Connection.step_live handled, ?_⟩
      cases Connection.step_cases handled with
      | submitted added _ effects expected =>
        rw [Connection.added_eq effects] at stale
        exact expected.subset stale
      | unhandled _ _ _ notShare => exact absurd rfl (notShare share)
    · exact absurd rfl other
  | stops fails => cases fails

theorem Pool.Rejobless.keepsFresh (holds : p.Rejobless past) : p.KeepsFresh X pool past := by
  intro c share received answers
  obtain ⟨pc, found, live, stale⟩ := answersStale_effects answers
  obtain ⟨ch, info, open_, current, quoted⟩ :=
    holds.current c pc found live share.channelId share.jobId received
  exact not_current_of_stale stale open_ current quoted

/-! ### Runs -/

private theorem run_rejobless {block : BlockTemplate} {actions : List Action} {p₀ : Pool}
    (started : Pool.start block = .ok p₀) (ran : Pool.run X pool p₀ actions = some p)
    (spaced : OpensPublished (Pool.trace X pool p₀ actions)) :
    p.Rejobless (Pool.trace X pool p₀ actions) := by
  have always := Execution.run_outputs Pool.notices (fun past p => p.Tracked X pool ∧
    p.Ordered past ∧ p.Unheard past ∧ (OpensPublished past → p.Rejobless past)) ?_ ?_ ran
  · exact always.2.2.2 spaced
  · rintro past p a p' ⟨tracked, ordered, unheard, holds⟩ stepped
    refine ⟨tracked.step stepped, ordered.step tracked stepped, unheard.step stepped, ?_⟩
    intro spaced
    exact (holds fun c => (spaced c).of_append).step tracked ordered unheard spaced stepped
  · refine ⟨Pool.start_tracked started, ⟨fun _ _ => List.Pairwise.nil, nofun⟩, fun _ _ _ => rfl,
      fun _ => ⟨fun _ _ _ => separated_nil, ?_, ?_⟩⟩
    · intro c pc _ _ id jobId received
      exact absurd received not_since_nil
    · intro c pc _ _ id jobId received
      exact absurd received not_since_nil

private theorem run_apart {block : BlockTemplate} {actions : List Action} {p₀ : Pool}
    (started : Pool.start block = .ok p₀) (ran : Pool.run X pool p₀ actions = some p)
    (succeeded : Execution.Along (Pool.step X pool) (Pool.JobsSucceed X) p₀ actions)
    (once : JobsOnce (Pool.trace X pool p₀ actions)) :
    OpensPublished (Pool.trace X pool p₀ actions) := by
  have always := Execution.run_outputs_along Pool.notices (fun past p => p.Tracked X pool ∧
    p.Unheard past ∧ (JobsOnce past → OpensPublished past ∧ p.OpensServed past)) ?_ ?_
    succeeded ran
  · exact (always.2.2 once).1
  · rintro past p a p' ⟨tracked, unheard, holds⟩ succeeds stepped
    refine ⟨tracked.step stepped, unheard.step stepped, fun once => ?_⟩
    obtain ⟨apart, served⟩ := holds fun c id t => (once c id t).of_append
    have apart' := apart_step apart served tracked once succeeds stepped
    exact ⟨apart', served_step served tracked unheard apart' stepped⟩
  · refine ⟨Pool.start_tracked started, fun _ _ _ => rfl, fun _ => ⟨fun _ => separated_nil, ?_⟩⟩
    intro c pc _ _ since
    exact absurd since not_since_nil

/-- In every run in which a template is published between an open request of a connection
and the next template change it sees, no channel gets two jobs for one template, and no share
on a job for the latest template is answered as stale. When jobs are built and sent, it is
so in no other run. -/
theorem jobs_once_iff {block : BlockTemplate} {actions : List Action} {p₀ : Pool}
    (started : Pool.start block = .ok p₀) (ran : Pool.run X pool p₀ actions = some p) :
    (OpensPublished (Pool.trace X pool p₀ actions) →
      JobsOnce (Pool.trace X pool p₀ actions) ∧
        p.KeepsFresh X pool (Pool.trace X pool p₀ actions)) ∧
    (Execution.Along (Pool.step X pool) (Pool.JobsSucceed X) p₀ actions →
      (JobsOnce (Pool.trace X pool p₀ actions) ∧
        p.KeepsFresh X pool (Pool.trace X pool p₀ actions) ↔
      OpensPublished (Pool.trace X pool p₀ actions))) := by
  have enough (spaced : OpensPublished (Pool.trace X pool p₀ actions)) :
      JobsOnce (Pool.trace X pool p₀ actions) ∧
        p.KeepsFresh X pool (Pool.trace X pool p₀ actions) := by
    have rejobless := run_rejobless started ran spaced
    exact ⟨rejobless.once, rejobless.keepsFresh⟩
  refine ⟨enough, fun succeeded => ⟨?_, enough⟩⟩
  rintro ⟨once, _⟩
  exact run_apart started ran succeeded once

/-- Connection 0 opens a channel, and then sees a second template. -/
def updateActions : List Action :=
  openActions ++ [.newThread true, .waitNext regtestBlock, .fetch true, .changed 0 [0] []]

/-- The channel that is opened before the second template gets one job of each. -/
theorem jobs_once_iff_regtest :
    JobsOnce (Pool.trace regtestExternals regtestAddress regtestPool updateActions) := by
  have trace : Pool.trace regtestExternals regtestAddress regtestPool updateActions =
      ([.opened 0 0, .job 0 0 1 0] ++ [.published]) ++ [.changed 0] ++ [.job 0 0 2 1] := by
    decide +kernel
  have runs : (Pool.run regtestExternals regtestAddress regtestPool updateActions).isSome := by
    decide +kernel
  refine ((jobs_once_iff regtestPool_started (regtestAfter_ran runs)).1 ?_).1
  intro c
  rw [trace]
  -- the last job follows no open
  refine Separated.append ?_ (by simp)
  rw [separated_concat, since_concat]
  constructor
  · exact separated_nil.append (m := [Notice.opened 0 0, .job 0 0 1 0, .published]) (by simp)
  · rintro _ (⟨_, isOpened⟩ | ⟨_, unpublished⟩)
    · cases isOpened
    · exact unpublished rfl

/-- A second template is published, connection 0 opens a channel, and only then sees the
template change. -/
def rejobActions : List Action :=
  [.accept, .newThread true, .waitNext regtestBlock, .fetch true,
    .frame 0 (.openExtendedMiningChannel (some regtestOpen)) 1700000000 [],
    .perform 0, .perform 0, .perform 0, .perform 0, .changed 0 [0] [], .perform 0, .perform 0]

/-- The channel gets two jobs for the second template, and a share on the first of them is
answered as stale. -/
theorem channel_rejobbed :
    Pool.start regtestBlock = .ok regtestPool ∧
    Pool.run regtestExternals regtestAddress regtestPool rejobActions =
      some (regtestAfter rejobActions) ∧
    ¬JobsOnce (Pool.trace regtestExternals regtestAddress regtestPool rejobActions) ∧
    ¬(regtestAfter rejobActions).KeepsFresh regtestExternals regtestAddress
      (Pool.trace regtestExternals regtestAddress regtestPool rejobActions) := by
  have checks : (Pool.run regtestExternals regtestAddress regtestPool rejobActions).isSome ∧
      Pool.trace regtestExternals regtestAddress regtestPool rejobActions =
        [.published, .opened 0 0, .job 0 0 1 1, .changed 0, .job 0 0 2 1] ∧
      (regtestAfter rejobActions).template.newTemplate.templateId = 1 := by decide +kernel
  obtain ⟨runs, trace, latest⟩ := checks
  rw [trace]
  refine ⟨regtestPool_started, regtestAfter_ran runs, ?_, ?_⟩
  · -- both jobs are for template 1
    intro once
    refine once 0 0 1 [.published, .opened 0 0, .job 0 0 1 1, .changed 0] _ [] rfl ⟨2, rfl⟩ ?_
    exact ⟨[.published, .opened 0 0], _, [.changed 0], rfl, ⟨1, rfl⟩, by simp⟩
  · -- the share quotes the first of them
    intro fresh
    refine fresh 0 regtestShare ?_ ?_
    · rw [latest]
      exact ⟨[.published, .opened 0 0], _, [.changed 0, .job 0 0 2 1], rfl, rfl, by decide⟩
    · have stale : ((regtestAfter rejobActions).step regtestExternals regtestAddress
          (.frame 0 (.submitSharesExtended (some regtestShare)) 1700000010 [])).any (fun p' =>
            (regtestAfter rejobActions).connections[0]?.any fun pc =>
              p'.connections[0]?.any fun pc' =>
                refused regtestShare .staleShareBeforeActivation ∈ pc.conn.added pc'.conn) =
          true := by decide +kernel
      obtain ⟨p', stepped, stale⟩ := (Option.any_eq_true _ _).mp stale
      obtain ⟨pc, found, stale⟩ := (Option.any_eq_true _ _).mp stale
      obtain ⟨pc', found', stale⟩ := (Option.any_eq_true _ _).mp stale
      exact ⟨_, _, p', pc, pc', stepped, found, found', of_decide_eq_true stale⟩

end MiningPool
