import MiningPool.Stratum.JobLog
import MiningPool.Stratum.Notices

/-!
# What a job offers

The two messages of a job offer headers: a time from the minimum on, and the version of the
job with other rolling bits. The connection records both numbers with the job, and reads
neither when it judges a share.

## Main result

`granted_shares_offered_iff`: in every run, what a share is granted is on offer if and only if
the share keeps to the recorded numbers.
-/

namespace MiningPool

open Bitcoin

variable {X : Externals} {dbTx : Bool} {c c' : Connection} {i : Input} {pool : String}

/-! ### Offers -/

/-- The version bits that a miner may roll. -/
def versionRollingMask : UInt32 := 0x1fffe000

/-- A header with this version and time is one that the two messages offer. -/
def JobEntry.Offers (e : JobEntry) (version ntime : UInt32) : Prop :=
  e.prevHash.minNtime ≤ ntime ∧
    version &&& ~~~versionRollingMask = e.job.version &&& ~~~versionRollingMask

/-- What a share can be granted: the answer that accepts it, a solution and a credit. -/
def Effect.IsGrant : Effect → Prop
  | .wire (.submitSharesSuccess _) => True
  | .solution .. => True
  | .credit .. => True
  | _ => False

/-- The headers that a grant stands for are on offer. -/
def Effect.Offered (e : JobEntry) (share : SubmitSharesExtended) : Effect → Prop
  | .wire (.submitSharesSuccess _) => e.Offers share.version share.ntime
  | .solution sol header =>
    e.Offers sol.version sol.headerTimestamp ∧ e.Offers header.version header.time
  | .credit _ header => e.Offers header.version header.time
  | _ => True

/-! ### The messages of the current job -/

/-- What a run has come by: the templates it was given, and whether one of its inputs was not
handled to the end. -/
structure Seen where
  template : RawTemplate → Prop
  broken : Prop

structure Seen.Grows (seen seen' : Seen) : Prop where
  template : ∀ raw, seen.template raw → seen'.template raw
  broken : seen.broken → seen'.broken

theorem Seen.Grows.refl (seen : Seen) : seen.Grows seen :=
  ⟨fun _ given => given, fun broke => broke⟩

/-- The job was built for the channel from a template, together with the two messages `e`. As
far as they were sent, they are the last on channel `id`; and they were, unless an input was
not handled to the end. -/
structure JobInfo.SentAs (X : Externals) (ch : ChannelInfo) (info : JobInfo) (id : UInt32)
    (effects : List Effect) (seen : Seen) (e : JobEntry) : Prop where
  built : ∃ jobId raw, seen.template raw ∧
    buildJobMessages X ch jobId raw = .ok (e.prevHash, e.job, info)
  announced : info.Announced id e.job e.prevHash
  last : ∃ older sent, jobMessages id effects = older ++ sent ∧ sent <+: e.messages ∧
    (sent = e.messages ∨ seen.broken)

/-- What was sent about the current job of channel `id`. -/
def CurrentSent (X : Externals) (id : UInt32) (s : ConnectionState) (effects : List Effect)
    (seen : Seen) : Prop :=
  ∀ ch info, s.channels.get? id = some ch → ch.currentJob = some info →
    ∃ e, info.SentAs X ch id effects seen e

theorem JobInfo.SentAs.mono {ch : ChannelInfo} {info : JobInfo} {id : UInt32}
    {effects effects' : List Effect} {seen seen' : Seen} {e : JobEntry}
    (sent : info.SentAs X ch id effects seen e)
    (same : jobMessages id effects' = jobMessages id effects) (grows : seen.Grows seen') :
    info.SentAs X ch id effects' seen' e where
  built := by
    obtain ⟨jobId, raw, given, built⟩ := sent.built
    exact ⟨jobId, raw, grows.template raw given, built⟩
  announced := sent.announced
  last := by
    obtain ⟨older, now, eq, part, whole⟩ := sent.last
    exact ⟨older, now, same.trans eq, part, whole.imp_right grows.broken⟩

/-- A channel that a step leaves alone. -/
private theorem currentSent_kept {id : UInt32} {s s' : ConnectionState}
    {effects effects' : List Effect} {seen seen' : Seen} (sent : CurrentSent X id s effects seen)
    (channel : s'.channels.get? id = s.channels.get? id)
    (same : jobMessages id effects' = jobMessages id effects) (grows : seen.Grows seen') :
    CurrentSent X id s' effects' seen' := by
  intro ch info found current
  obtain ⟨e, sent⟩ := sent ch info (channel.symm.trans found) current
  exact ⟨e, sent.mono same grows⟩

/-- Channel `first` gets a job, and some of its two messages are sent. -/
private theorem currentSent_turn {id first : UInt32} {s : ConnectionState} {effects : List Effect}
    {seen : Seen} (before : CurrentSent X id s effects seen) {ch : ChannelInfo} {info : JobInfo}
    {job : NewExtendedMiningJob} {snph : SetNewPrevHash}
    (found : s.channels.get? first = some ch) {jobId : UInt32} {raw : RawTemplate}
    (given : seen.template raw)
    (built : buildJobMessages X ch jobId raw = .ok (snph, job, info)) (own : ch.channelId = first)
    {sent : List Effect}
    (part : sent <+: [.wire (.newExtendedMiningJob job), .wire (.setNewPrevHash snph)])
    (whole : sent = [.wire (.newExtendedMiningJob job), .wire (.setNewPrevHash snph)] ∨
      seen.broken) :
    CurrentSent X id (s.setCurrentJob first info) (effects ++ sent) seen := by
  obtain ⟨_, _, _, _, _, announced, _⟩ := buildJobMessages_ok built
  rw [own] at announced
  have entry := jobMessages_entry id announced
  have part' : jobMessages id sent <+: if first = id then (JobEntry.mk job snph).messages else [] :=
    entry ▸ part.filterMap (jobMessage id)
  by_cases same : first = id
  · subst same
    rw [if_pos rfl] at entry part'
    intro ch' info' found' current
    rw [setCurrentJob_get?, found, Option.map_some, if_pos rfl, Option.some.injEq] at found'
    subst found'
    cases current
    refine ⟨⟨job, snph⟩, ⟨jobId, raw, given, built⟩, announced, _, _,
      jobMessages_append first effects sent, part', ?_⟩
    exact whole.imp_left fun eq => by rw [eq, entry]
  · rw [if_neg same, List.prefix_nil] at part'
    refine currentSent_kept before ?_ ?_ (Seen.Grows.refl seen)
    · simp [setCurrentJob_get?, Ne.symm same]
    · rw [jobMessages_append, part', List.append_nil]

/-! ### A broadcast -/

/-- Whatever the outcome of the loop; only one that fails breaks off the messages of a job. -/
private theorem sendJobsToAllChannels_sent {template : RawTemplate} {jobId id : UInt32}
    {order : List UInt32} {w w' : World ConnectionState Effect} {result : Except String Unit}
    {seen : Seen} (keyed : w.state.Keyed)
    (ran : sendJobsToAllChannels X template jobId order w = (result, w'))
    (given : seen.template template) (failed : result ≠ .ok () → seen.broken)
    (before : CurrentSent X id w.state w.effects seen) :
    CurrentSent X id w'.state w'.effects seen := by
  induction order generalizing w with
  | nil =>
    cases ran
    exact before
  | cons first order ih =>
    cases sendJobsToAllChannels_turn ran with
    | unbuilt _ same =>
      rw [same]
      exact before
    | @unsent ch snph job info sent wrong found built state effects cut =>
      rw [state, effects]
      refine currentSent_turn before found given built (keyed first ch found) ?_
        (.inr (failed wrong))
      rcases cut with rfl | rfl
      · exact List.nil_prefix
      · exact List.prefix_append [_] [_]
    | @served ch snph job info socket found built rest =>
      exact ih (setCurrentJob_keyed keyed) rest
        (currentSent_turn before found given built (keyed first ch found) (List.prefix_refl _)
          (.inl rfl))

/-! ### Runs -/

/-- Some input of the run was not handled to the end. -/
def Interrupted (X : Externals) (dbTx : Bool) (pool : String) (inputs : List Input) : Prop :=
  ∃ past i rest c, inputs = past ++ i :: rest ∧
    Connection.run X dbTx (Connection.new pool) past = some c ∧ ¬c.Succeeds X dbTx i

def seenBy (X : Externals) (dbTx : Bool) (pool : String) (inputs : List Input) : Seen where
  template raw := ∃ i ∈ inputs, i.template = raw
  broken := Interrupted X dbTx pool inputs

private theorem seenBy_grows (past : List Input) (i : Input) :
    (seenBy X dbTx pool past).Grows (seenBy X dbTx pool (past ++ [i])) where
  template := by
    rintro raw ⟨j, member, own⟩
    exact ⟨j, List.mem_append_left _ member, own⟩
  broken := by
    rintro ⟨before, j, rest, c, rfl, ran, failed⟩
    exact ⟨before, j, rest ++ [i], c, by simp, ran, failed⟩

private theorem seenBy_last (past : List Input) (i : Input) :
    (seenBy X dbTx pool (past ++ [i])).template i.template :=
  ⟨i, List.mem_append_right _ List.mem_cons_self, rfl⟩

private theorem opened_sent {id : UInt32} {s : ConnectionState} {effects : List Effect}
    {seen : Seen} (before : CurrentSent X id s effects seen) (msg : OpenExtendedMiningChannel)
    (template : RawTemplate) :
    CurrentSent X id (s.opened X msg template) (effects ++
      [.wire (.openExtendedMiningChannelSuccess (openSuccess X s msg template))]) seen := by
  have same : jobMessages id (effects ++
      [.wire (.openExtendedMiningChannelSuccess (openSuccess X s msg template))]) =
      jobMessages id effects := by
    rw [jobMessages_append]
    exact List.append_nil _
  intro ch info found current
  rw [ConnectionState.opened, KeyedTable.get?_insert] at found
  split at found
  · -- the new channel has no job yet
    cases found
    cases current
  · obtain ⟨e, sent⟩ := before ch info found current
    exact ⟨e, sent.mono same (Seen.Grows.refl seen)⟩

/-- In every state of a live connection, the current job of each channel was sent. -/
theorem Connection.run_sent {inputs : List Input}
    (ran : run X dbTx (new pool) inputs = some c) (live : c.live = true) (id : UInt32) :
    CurrentSent X id c.state c.effects (seenBy X dbTx pool inputs) := by
  refine (Execution.run_history (fun past c => run X dbTx (new pool) past = some c ∧
    (c.live = true → CurrentSent X id c.state c.effects (seenBy X dbTx pool past))) ?_ ?_
    ran).2 live
  · rintro past c i c' ⟨reached, sent⟩ stepped
    refine ⟨Execution.run_snoc reached stepped, fun alive => ?_⟩
    have last : (seenBy X dbTx pool (past ++ [i])).template i.template := seenBy_last past i
    have before := currentSent_kept (sent (step_live stepped)) rfl rfl (seenBy_grows past i)
    have refl := Seen.Grows.refl (seenBy X dbTx pool (past ++ [i]))
    cases step_cases stepped with
    | unanswered _ _ dead => simp [dead] at alive
    | unserved _ _ _ _ dead => simp [dead] at alive
    | @opened msg template now _ _ snph job info built state effects =>
      have found : (c.state.opened X msg template).channels.get? c.state.nextChannelId =
          some (openedChannel X c.state msg template) := by
        rw [ConnectionState.opened, KeyedTable.get?_insert, if_pos rfl]
      have issued := currentSent_turn (opened_sent before msg template) found last built rfl
        (List.prefix_refl _) (.inl rfl)
      refine currentSent_kept issued (by rw [state]) ?_ refl
      -- the greeting says nothing about the job
      have greeting : jobMessages id (if dbTx then
          [.connected (openedChannel X c.state msg template).minerAddress now] else []) = [] := by
        split <;> rfl
      rw [effects, ← List.append_assoc, jobMessages_append, greeting, List.append_nil,
        List.append_assoc]
      rfl
    | submitted added state effects expected =>
      refine currentSent_kept before (by rw [state]) ?_ refl
      rw [effects, jobMessages_append, jobMessages_share id _ _ expected, List.append_nil]
    | unhandled state effects =>
      exact currentSent_kept before (by rw [state]) (by rw [effects]) refl
    | @broadcast template order socket =>
      obtain ⟨_, result, w, ran, state, effects, whole⟩ := step_broadcast stepped
      have failed : result ≠ .ok () →
          (seenBy X dbTx pool (past ++ [.templateChanged template order socket])).broken :=
        fun wrong => ⟨past, _, [], c, rfl, reached, fun succeeds => wrong (whole.mp succeeds)⟩
      have sent := sendJobsToAllChannels_sent (run_allocated reached).keyed ran last failed
        (currentSent_kept before rfl rfl refl)
      rw [state, effects]
      exact sent
  · refine ⟨rfl, fun _ ch info found => ?_⟩
    cases found

/-! ### Grants -/

/-- The share keeps to the numbers that are recorded with its job. -/
def KeepsToJob (s : ConnectionState) (share : SubmitSharesExtended) : Prop :=
  ∀ ch info, s.channels.get? share.channelId = some ch → ch.currentJob = some info →
    info.jobId = share.jobId → info.ntime ≤ share.ntime ∧
      share.version &&& ~~~versionRollingMask = info.version &&& ~~~versionRollingMask

private theorem keepsToJob_current {s : ConnectionState} {share : SubmitSharesExtended}
    {ch : ChannelInfo} {info : JobInfo} (found : s.channels.get? share.channelId = some ch)
    (current : ch.currentJob = some info) (quoted : info.jobId = share.jobId) :
    KeepsToJob s share ↔ info.ntime ≤ share.ntime ∧
      share.version &&& ~~~versionRollingMask = info.version &&& ~~~versionRollingMask := by
  constructor
  · intro keeps
    exact keeps ch info found current quoted
  · intro keeps ch' info' found' current' _
    rw [found, Option.some.injEq] at found'
    subst found'
    rw [current, Option.some.injEq] at current'
    subst current'
    exact keeps

/-- If the input is a share, it keeps to its job. -/
def ShareKeeps (c : Connection) : Input → Prop
  | .frame (.submitSharesExtended (some share)) _ _ _ => KeepsToJob c.state share
  | _ => True

/-- The grant is for the job that the share quotes, and on offer by the messages about it. -/
def Effect.OnOffer (X : Externals) (c : Connection) (seen : Seen) (share : SubmitSharesExtended)
    (effect : Effect) : Prop :=
  ∃ ch info e, c.state.channels.get? share.channelId = some ch ∧ ch.currentJob = some info ∧
    info.jobId = share.jobId ∧ info.SentAs X ch share.channelId c.effects seen e ∧
    effect.Offered e share

/-- A grant is for the current job of the channel, with the version and the time of the share. -/
private theorem shareEffects_grant {s : ConnectionState} {share : SubmitSharesExtended}
    {effect : Effect} (member : effect ∈ shareEffects X s share dbTx) (grant : effect.IsGrant) :
    ∃ ch info, s.channels.get? share.channelId = some ch ∧ ch.currentJob = some info ∧
      info.jobId = share.jobId ∧
      ∀ e : JobEntry, effect.Offered e share ↔ e.Offers share.version share.ntime := by
  rcases shareEffects_cases member with ⟨_, rfl⟩ |
    ⟨ch, info, coinbaseTx, found, current, quoted, _, _, granted⟩
  · exact absurd grant id
  refine ⟨ch, info, found, current, quoted, fun e => ?_⟩
  -- the header takes the numbers of the share
  rcases granted with rfl | rfl | ⟨rfl, _⟩
  · exact Iff.rfl
  · exact Iff.rfl
  · exact and_self_iff

/-- Only a share leads to a grant. -/
private theorem step_grant (stepped : c.step X dbTx i = some c') {effect : Effect}
    (member : effect ∈ c.added c') (grant : effect.IsGrant) :
    ∃ share template now socket,
      i = .frame (.submitSharesExtended (some share)) template now socket ∧
      effect ∈ shareEffects X c.state share dbTx := by
  have notJob : ¬effect.IsJob := by
    intro job
    cases effect with
    | wire m => cases m <;> first | exact grant | exact job
    | _ => exact job
  have none (same : c'.effects = c.effects) : c.added c' = [] :=
    Connection.added_eq (by rw [same, List.append_nil])
  cases Connection.step_cases stepped with
  | unanswered _ same => simp [none same] at member
  | unhandled _ same => simp [none same] at member
  | submitted added _ effects expected =>
    rw [Connection.added_eq effects] at member
    exact ⟨_, _, _, _, rfl, expected.subset member⟩
  | broadcast added _ _ effects all =>
    rw [Connection.added_eq effects] at member
    exact absurd (all effect member) notJob
  | unserved added _ effects all =>
    rw [Connection.added_eq effects] at member
    -- the answer to the request, or what came after it
    rcases List.mem_cons.mp member with rfl | later
    · exact absurd grant id
    · rcases all effect later with job | ⟨_, rfl⟩
      · exact absurd job notJob
      · exact absurd grant id
  | opened _ _ effects =>
    rw [Connection.added_eq effects] at member
    simp only [List.mem_append, List.mem_cons, List.not_mem_nil, or_false] at member
    rcases member with (rfl | rfl | rfl) | greeting
    · exact absurd grant id
    · exact absurd grant id
    · exact absurd grant id
    · split at greeting
      · rw [List.mem_singleton.mp greeting] at grant
        exact absurd grant id
      · cases greeting

/-- Where the messages of the current jobs were sent, the numbers recorded with a job are those
on offer. -/
private theorem onOffer_iff {share : SubmitSharesExtended} {seen : Seen}
    (sent : CurrentSent X share.channelId c.state c.effects seen) {effect : Effect}
    (member : effect ∈ shareEffects X c.state share dbTx) (grant : effect.IsGrant) :
    effect.OnOffer X c seen share ↔ KeepsToJob c.state share := by
  obtain ⟨ch, info, found, current, quoted, offered⟩ := shareEffects_grant member grant
  have keeps (e : JobEntry) (announced : info.Announced share.channelId e.job e.prevHash) :
      effect.Offered e share ↔ KeepsToJob c.state share := by
    rw [offered, JobEntry.Offers, announced.ntime, announced.version,
      keepsToJob_current found current quoted]
  constructor
  · rintro ⟨ch', info', e, found', current', _, sentAs, offers⟩
    rw [found, Option.some.injEq] at found'
    subst found'
    rw [current, Option.some.injEq] at current'
    subst current'
    exact (keeps e sentAs.announced).mp offers
  · intro kept
    obtain ⟨e, sentAs⟩ := sent ch info found current
    exact ⟨ch, info, e, found, current, quoted, sentAs, (keeps e sentAs.announced).mpr kept⟩

/-- At every step of every run, a grant is for a share, and on offer if and only if this share
keeps to its job. Where all shares of the run do, all grants are on offer. -/
theorem granted_shares_offered_iff {inputs past rest : List Input}
    (within : inputs = past ++ i :: rest)
    (reached : Connection.run X dbTx (Connection.new pool) past = some c)
    (stepped : c.step X dbTx i = some c') {effect : Effect} (member : effect ∈ c.added c')
    (grant : effect.IsGrant) :
    ∃ share template now socket,
      i = .frame (.submitSharesExtended (some share)) template now socket ∧
      (effect.OnOffer X c (seenBy X dbTx pool past) share ↔ KeepsToJob c.state share) ∧
      (Execution.Along (Connection.step X dbTx) ShareKeeps (Connection.new pool) inputs →
        effect.OnOffer X c (seenBy X dbTx pool past) share) := by
  obtain ⟨share, template, now, socket, rfl, caused⟩ := step_grant stepped member grant
  have sent := Connection.run_sent reached (Connection.step_live stepped) share.channelId
  have iff := onOffer_iff sent caused grant
  refine ⟨share, template, now, socket, rfl, iff, fun keeps => iff.mpr ?_⟩
  subst within
  exact keeps.at_step reached

private theorem regtest_opened :
    (Connection.new regtestAddress).run regtestExternals true regtestInputs =
        some regtestConnection ∧
      regtestConnection.state.channels.get? regtestShare.channelId = some regtestChannel := by
  decide +kernel

/-- The first share of the test network, sent twice. -/
theorem granted_shares_offered_regtest :
    let submit : Input :=
      .frame (.submitSharesExtended (some regtestShare)) regtestTemplate 1700000010 []
    ∃ c c', Connection.run regtestExternals true (Connection.new regtestAddress)
        (regtestInputs ++ [submit]) = some c ∧
      c.step regtestExternals true submit = some c' ∧ accepted regtestShare ∈ c.added c' ∧
      (accepted regtestShare).OnOffer regtestExternals c
        (seenBy regtestExternals true regtestAddress (regtestInputs ++ [submit])) regtestShare := by
  intro submit
  obtain ⟨ran, found⟩ := regtest_opened
  have granted : accepted regtestShare ∈
      shareEffects regtestExternals regtestConnection.state regtestShare true := by
    decide +kernel
  have keeps : KeepsToJob regtestConnection.state regtestShare :=
    (keepsToJob_current found rfl rfl).mpr (by decide)
  -- the first share leaves the state as it was
  let once : Connection := ⟨regtestConnection.state, regtestConnection.effects ++
    shareEffects regtestExternals regtestConnection.state regtestShare true, true⟩
  have first : regtestConnection.step regtestExternals true submit = some once :=
    Connection.step_share (by decide +kernel) regtestShare regtestTemplate 1700000010
  have second : once.step regtestExternals true submit = some ⟨once.state, once.effects ++
      shareEffects regtestExternals once.state regtestShare true, true⟩ :=
    Connection.step_share rfl regtestShare regtestTemplate 1700000010
  have member : accepted regtestShare ∈ once.added ⟨once.state, once.effects ++
      shareEffects regtestExternals once.state regtestShare true, true⟩ := by
    rw [Connection.added_eq rfl]
    exact granted
  have along : Execution.Along (Connection.step regtestExternals true) ShareKeeps
      (Connection.new regtestAddress) (regtestInputs ++ [submit, submit]) := by
    refine ⟨trivial, fun c₁ opened => ?_⟩
    have alone : Connection.run regtestExternals true (Connection.new regtestAddress)
        regtestInputs = some c₁ :=
      Execution.run_snoc (Execution.run_nil _ _) opened
    obtain rfl := Option.some.inj (alone.symm.trans ran)
    refine ⟨keeps, fun c₂ stepped => ?_⟩
    obtain rfl := Option.some.inj (stepped.symm.trans first)
    exact ⟨keeps, fun _ _ => trivial⟩
  have reached := Execution.run_snoc ran first
  obtain ⟨share, _, _, _, own, _, offered⟩ := granted_shares_offered_iff
    (List.append_assoc regtestInputs [submit] [submit]).symm reached second member trivial
  simp only [submit, Input.frame.injEq, Frame.submitSharesExtended.injEq, Option.some.injEq] at own
  obtain ⟨rfl, _⟩ := own
  exact ⟨once, _, reached, second, member, offered along⟩

/-- A share with the time and the version zero. -/
def timelessShare : SubmitSharesExtended :=
  { regtestShare with ntime := 0, version := 0, nonce := 2 }

/-- It is accepted, although its job's messages offer neither. -/
theorem timeless_share_accepted :
    ¬∀ inputs c c' share template now socket,
      Connection.run regtestExternals true (Connection.new regtestAddress) inputs = some c →
      c.step regtestExternals true
        (.frame (.submitSharesExtended (some share)) template now socket) = some c' →
      accepted share ∈ c.added c' →
      ∀ older e, jobMessages share.channelId c.effects = older ++ JobEntry.messages e →
        e.job.jobId = share.jobId → e.Offers share.version share.ntime := by
  intro offered
  obtain ⟨ran, _⟩ := regtest_opened
  have handled : (regtestConnection.step regtestExternals true
      (.frame (.submitSharesExtended (some timelessShare)) regtestTemplate 1700000010 [])).any
        (fun c' => accepted timelessShare ∈ regtestConnection.added c') := by
    decide +kernel
  obtain ⟨c', stepped, answered⟩ := Execution.exists_of_any handled
  have messages : jobMessages 0 regtestConnection.effects =
      [] ++ JobEntry.messages ⟨legacyMessages.2.1, legacyMessages.1⟩ := by
    decide +kernel
  have offers := offered regtestInputs regtestConnection c' timelessShare regtestTemplate
    1700000010 [] ran stepped answered [] _ messages rfl
  exact absurd offers.1 (by decide)

end MiningPool
