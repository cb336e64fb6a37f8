import MiningPool.Library.History
import MiningPool.Stratum.Replies

/-!
# The order of messages

What a connection sends, as a language: which message may follow which. Channels are numbered
in the order in which they are opened, a job is announced for an open channel and its
previous hash comes right after it, and only a channel that has been given a job gets replies
to shares. Writes that fail cut the connection's output somewhere, but never bring it out of order.

## Main result

`Connection.run_ordered`: whatever the inputs and the writes, all that a connection sent is in
this order.
-/

namespace MiningPool

open History

variable {X : Externals} {dbTx : Bool} {c c' : Connection} {i : Input} {pool : String}

/-! ### The language -/

def Message.opening? : Message → Option OpenExtendedMiningChannelSuccess
  | .openExtendedMiningChannelSuccess m => some m
  | _ => none

/-- The openings among some messages, in order. -/
def openings (messages : List Message) : List OpenExtendedMiningChannelSuccess :=
  messages.filterMap Message.opening?

@[simp] theorem openings_append (messages added : List Message) :
    openings (messages ++ added) = openings messages ++ openings added := List.filterMap_append

/-- Channel `id` was opened. -/
def Opened (messages : List Message) (id : UInt32) : Prop :=
  ∃ m ∈ openings messages, m.channelId = id

/-- It was given a job, previous hash and all. -/
def Provided (messages : List Message) (id : UInt32) : Prop :=
  ∃ m, .setNewPrevHash m ∈ messages ∧ m.channelId = id

/-- The message may be sent when `before` was. -/
def Message.Follows (before : List Message) : Message → Prop
  | .openExtendedMiningChannelSuccess m =>
    m.channelId = UInt32.ofNat (openings before).length ∧ m.groupChannelId = 0
  | .newExtendedMiningJob m => Opened before m.channelId
  | .setNewPrevHash m => ∃ job, before.getLast? = some (.newExtendedMiningJob job) ∧
    job.channelId = m.channelId ∧ job.jobId = m.jobId
  | .submitSharesSuccess m => Provided before m.channelId
  | .submitSharesError m => Provided before m.channelId

theorem Opened.append {messages : List Message} {id : UInt32} (opened : Opened messages id)
    (added : List Message) : Opened (messages ++ added) id := by
  obtain ⟨m, member, own⟩ := opened
  exact ⟨m, by simp [member], own⟩

theorem Provided.append {messages : List Message} {id : UInt32} (provided : Provided messages id)
    (added : List Message) : Provided (messages ++ added) id := by
  obtain ⟨m, member, own⟩ := provided
  exact ⟨m, by simp [member], own⟩

/-! ### Parts of a script -/

/-- What is in order stays so with a part of what may be added. -/
theorem ordered_part {follows : List Message → Message → Prop}
    {messages added script : List Message} (whole : Ordered follows (messages ++ script))
    (part : added <+: script) :
    Ordered follows (messages ++ added) :=
  whole.of_prefix ((List.prefix_append_right_inj messages).mpr part)

/-- The two messages of a job. -/
theorem ordered_job {messages : List Message} {job : NewExtendedMiningJob} {snph : SetNewPrevHash}
    (ordered : Ordered Message.Follows messages) (opened : Opened messages job.channelId)
    (channel : job.channelId = snph.channelId) (jobId : job.jobId = snph.jobId) :
    Ordered Message.Follows
      (messages ++ [.newExtendedMiningJob job, .setNewPrevHash snph]) := by
  rw [List.append_cons, ordered_concat, ordered_concat]
  refine ⟨⟨ordered, opened⟩, job, ?_, channel, jobId⟩
  simp

/-! ### Steps -/

/-- What an open request sends is a part of its script: the answer, and if a job can be built,
its two messages. -/
private theorem open_script {msg : OpenExtendedMiningChannel} {template : RawTemplate} {now : Int}
    {w w' : World ConnectionState Effect} {result : Except String Unit}
    (ran : handleOpenExtendedMiningChannel X msg template now dbTx w = (result, w')) :
    w'.effects = w.effects ∨
    ∃ rest, w'.effects = w.effects ++
        .wire (.openExtendedMiningChannelSuccess (openSuccess X w.state msg template)) :: rest ∧
      (rest = [] ∨ ∃ snph job info address, buildJobMessages X
          (openedChannel X w.state msg template) w.state.nextJobId template =
            .ok (snph, job, info) ∧
        rest <+: [.wire (.newExtendedMiningJob job), .wire (.setNewPrevHash snph),
          .connected address now]) := by
  unfold handleOpenExtendedMiningChannel at ran
  simp only [Handler.bind_apply, Handler.getState, allocChannelId_apply, allocJobId_apply,
    Handler.modifyState, Handler.ofExcept] at ran
  rcases Handler.write_cases _ _ _ with refused | answered
  · rw [refused] at ran
    cases ran
    exact .inl rfl
  rw [answered] at ran
  right
  rcases built : buildJobMessages X (openedChannel X w.state msg template) w.state.nextJobId
    template with e | ⟨snph, job, info⟩
  · rw [openedChannel] at built
    simp only [built] at ran
    cases ran
    exact ⟨[], rfl, .inl rfl⟩
  have unfolded := built
  rw [openedChannel] at unfolded
  simp only [unfolded] at ran
  -- each write may be the one at which the output is cut
  rcases Handler.write_cases (Effect.wire (.newExtendedMiningJob job)) _ _ with refused | sentJob
  · rw [refused] at ran
    cases ran
    exact ⟨[], rfl, .inl rfl⟩
  rw [sentJob] at ran
  simp only at ran
  rcases Handler.write_cases (Effect.wire (.setNewPrevHash snph)) _ _ with refused | sentPrevHash
  · rw [refused] at ran
    cases ran
    exact ⟨[.wire (.newExtendedMiningJob job)], by simp [openSuccess, openedChannel],
      .inr ⟨snph, job, info, "", rfl, by simp⟩⟩
  rw [sentPrevHash] at ran
  simp only at ran
  split at ran
  · cases ran
    exact ⟨[.wire (.newExtendedMiningJob job), .wire (.setNewPrevHash snph),
      .connected (parseMinerAddress X msg.userIdentity w.state.poolAddress) now],
      by simp [openSuccess, openedChannel], .inr ⟨snph, job, info, _, rfl, List.prefix_refl _⟩⟩
  · cases ran
    exact ⟨[.wire (.newExtendedMiningJob job), .wire (.setNewPrevHash snph)],
      by simp [openSuccess, openedChannel], .inr ⟨snph, job, info, "", rfl, by simp⟩⟩

/-- What is sent is in order, and the channels of a connection that goes on are open, have
jobs, and are counted. -/
structure Connection.Orderly (c : Connection) : Prop where
  ordered : Ordered Message.Follows (sentMessages c.effects)
  opened : ∀ id ch, c.state.channels.get? id = some ch → Opened (sentMessages c.effects) id
  provided : c.live = true → ∀ id ch, c.state.channels.get? id = some ch →
    Provided (sentMessages c.effects) id
  count : c.live = true →
    c.state.nextChannelId = UInt32.ofNat (openings (sentMessages c.effects)).length

/-- The loop of a broadcast, whatever its outcome. -/
private theorem broadcast_ordered {template : RawTemplate} {jobId : UInt32} {order : List UInt32}
    {w w' : World ConnectionState Effect} {result : Except String Unit} (keyed : w.state.Keyed)
    (ran : sendJobsToAllChannels X template jobId order w = (result, w'))
    (ordered : Ordered Message.Follows (sentMessages w.effects))
    (opened : ∀ id ch, w.state.channels.get? id = some ch → Opened (sentMessages w.effects) id) :
    Ordered Message.Follows (sentMessages w'.effects) := by
  induction order generalizing w with
  | nil =>
    cases ran
    exact ordered
  | cons first order ih =>
    -- the messages for a channel of the table
    have turn {ch : ChannelInfo} {snph : SetNewPrevHash} {job : NewExtendedMiningJob}
        {info : JobInfo} (found : w.state.channels.get? first = some ch)
        (built : buildJobMessages X ch jobId template = .ok (snph, job, info)) :
        Ordered Message.Follows (sentMessages w.effects ++
          [.newExtendedMiningJob job, .setNewPrevHash snph]) := by
      obtain ⟨_, _, _, _, _, announced, _⟩ := buildJobMessages_ok built
      have own := keyed first ch found
      apply ordered_job ordered
      · rw [announced.jobChannel, own]
        exact opened first ch found
      · rw [announced.jobChannel, announced.snphChannel]
      · rw [announced.jobId, announced.snphJobId]
    cases sendJobsToAllChannels_turn ran with
    | unbuilt _ same =>
      rw [same]
      exact ordered
    | @unsent ch snph job info sent _ found built _ effects cut =>
      rw [effects, sentMessages_append]
      apply ordered_part (turn found built)
      rcases cut with rfl | rfl
      · exact List.nil_prefix
      · exact List.prefix_append [_] [_]
    | @served ch snph job info socket found built rest =>
      refine ih (setCurrentJob_keyed keyed) rest ?_ ?_
      · rw [sentMessages_append]
        exact turn found built
      · intro id ch' found'
        rw [setCurrentJob_get?, Option.map_eq_some_iff] at found'
        obtain ⟨old, before, _⟩ := found'
        rw [sentMessages_append]
        exact (opened id old before).append _

/-- An open request, whatever its outcome. -/
private theorem open_ordered {msg : OpenExtendedMiningChannel} {template : RawTemplate} {now : Int}
    {w w' : World ConnectionState Effect} {result : Except String Unit}
    (ran : handleOpenExtendedMiningChannel X msg template now dbTx w = (result, w'))
    (ordered : Ordered Message.Follows (sentMessages w.effects))
    (count : w.state.nextChannelId = UInt32.ofNat (openings (sentMessages w.effects)).length) :
    Ordered Message.Follows (sentMessages w'.effects) := by
  have answered : Ordered Message.Follows (sentMessages w.effects ++
      [.openExtendedMiningChannelSuccess (openSuccess X w.state msg template)]) := by
    rw [ordered_concat]
    exact ⟨ordered, count, rfl⟩
  rcases open_script ran with same | ⟨rest, effects, rfl | ⟨snph, job, info, address, built, part⟩⟩
  · rw [same]
    exact ordered
  · rw [effects, sentMessages_append]
    exact answered
  · obtain ⟨_, _, _, _, _, announced, _⟩ := buildJobMessages_ok built
    have served : Ordered Message.Follows
        (_ ++ [.newExtendedMiningJob job, .setNewPrevHash snph]) := ordered_job answered
      ⟨openSuccess X w.state msg template, by simp [openings, Message.opening?],
        announced.jobChannel.symm⟩ (announced.jobChannel.trans announced.snphChannel.symm)
      (announced.jobId.trans announced.snphJobId.symm)
    rw [effects, sentMessages_append, sentMessages_wire, List.append_cons]
    -- the greeting at the end of the script is no message
    exact ordered_part served (part.filterMap Effect.message?)

theorem Connection.step_open {msg : OpenExtendedMiningChannel} {template : RawTemplate} {now : Int}
    {socket : List Bool}
    (stepped : c.step X dbTx (.frame (.openExtendedMiningChannel (some msg)) template now socket) =
      some c') :
    ∃ result w, handleOpenExtendedMiningChannel X msg template now dbTx
      ⟨c.state, c.effects, socket⟩ = (result, w) ∧ c'.effects = w.effects := by
  have live := step_live stepped
  simp only [step, live, Bool.not_true, Bool.false_eq_true, if_false, Option.some.injEq] at stepped
  subst stepped
  exact ⟨_, _, rfl, rfl⟩

/-- Replies to shares for channels that have jobs. -/
private theorem replies_ordered {messages replies : List Message}
    (ordered : Ordered Message.Follows messages)
    (reply : ∀ m ∈ replies, m.opening? = none ∧
      ∀ before, messages <+: before → m.Follows before) :
    Ordered Message.Follows (messages ++ replies) ∧
      openings (messages ++ replies) = openings messages := by
  induction replies using List.reverseRecOn with
  | nil => simpa using ordered
  | append_singleton replies m ih =>
    obtain ⟨before, same⟩ := ih fun m member => reply m (List.mem_append_left _ member)
    obtain ⟨silent, follows⟩ := reply m (List.mem_append_right _ List.mem_cons_self)
    rw [← List.append_assoc, ordered_concat, openings_append, same]
    refine ⟨⟨before, follows _ (List.prefix_append messages replies)⟩, ?_⟩
    simp [openings, silent]

/-- What a share is answered. -/
private theorem share_ordered {share : SubmitSharesExtended} {added : List Effect}
    {messages : List Message} (expected : added <+: shareEffects X c.state share dbTx)
    (ordered : Ordered Message.Follows messages)
    (provided : ∀ id ch, c.state.channels.get? id = some ch → Provided messages id) :
    Ordered Message.Follows (messages ++ sentMessages added) ∧
      openings (messages ++ sentMessages added) = openings messages := by
  cases found : c.state.channels.get? share.channelId with
  | none =>
    rw [shareEffects, found, List.prefix_nil] at expected
    subst expected
    simpa using ordered
  | some ch =>
    apply replies_ordered ordered
    intro m member
    obtain ⟨e, effect, message⟩ := List.mem_filterMap.mp member
    have known (before : List Message) (part : messages <+: before) :
        Provided before share.channelId := by
      obtain ⟨later, rfl⟩ := part
      exact (provided _ ch found).append later
    -- the other effects of a share are no messages
    rcases shareEffects_cases (expected.subset effect) with ⟨errorCode, rfl⟩ |
      ⟨_, _, _, _, _, _, _, _, rfl | rfl | ⟨rfl, _⟩⟩
    · cases message
      exact ⟨rfl, known⟩
    · cases message
      exact ⟨rfl, known⟩
    · cases message
    · cases message

/-- Announcing jobs opens nothing. -/
private theorem openings_jobs {added : List Effect} (all : ∀ e ∈ added, e.IsJob) :
    openings (sentMessages added) = [] := by
  rw [openings, List.filterMap_eq_nil_iff]
  intro m member
  obtain ⟨e, effect, message⟩ := List.mem_filterMap.mp member
  have job := all e effect
  cases m with
  | openExtendedMiningChannelSuccess m =>
    cases e with
    | wire m' =>
      cases message
      cases job
    | _ => cases message
  | _ => rfl

/-- A channel of the table after a step is one of before, or the one that was opened. -/
private theorem channel_opened (stepped : Connection.Stepped X dbTx c i c') {id : UInt32}
    {ch : ChannelInfo} (found : c'.state.channels.get? id = some ch) :
    (∃ old, c.state.channels.get? id = some old) ∨ ∃ msg, i.opens = some msg ∧
      id = c.state.nextChannelId := by
  rcases stepped.channel_cases found with old | ⟨base, _, _, _, old, _⟩ | ⟨msg, opens, next, _⟩
  · exact .inl ⟨ch, old⟩
  · exact .inl ⟨base, old⟩
  · exact .inr ⟨msg, opens, next⟩

theorem Connection.Orderly.step (holds : c.Orderly) (keyed : c.state.Keyed)
    (stepped : c.step X dbTx i = some c') : c'.Orderly := by
  have live := step_live stepped
  have provided := holds.provided live
  have count := holds.count live
  have cases_ := step_cases stepped
  cases cases_ with
  | unanswered state effects dead =>
    refine ⟨effects ▸ holds.ordered, ?_, by simp [dead], by simp [dead]⟩
    rw [state, effects]
    exact holds.opened
  | @unserved msg template _ _ _ added state effects all dead =>
    obtain ⟨result, w, ran, effects'⟩ := step_open stepped
    refine ⟨?_, ?_, by simp [dead], by simp [dead]⟩
    · rw [effects']
      exact open_ordered ran holds.ordered count
    · intro id ch found
      rw [effects, sentMessages_append]
      rcases channel_opened (step_cases stepped) found with ⟨old, before⟩ | ⟨_, _, rfl⟩
      · exact (holds.opened id old before).append _
      · exact ⟨openSuccess X c.state msg template, by simp [openings, Message.opening?], rfl⟩
  | @opened msg template now _ _ snph job info built state effects =>
    obtain ⟨result, w, ran, effects'⟩ := step_open stepped
    obtain ⟨_, _, _, _, _, announced, _⟩ := buildJobMessages_ok built
    -- the greeting is no message
    have sent : sentMessages c'.effects = sentMessages c.effects ++
        [.openExtendedMiningChannelSuccess (openSuccess X c.state msg template),
          .newExtendedMiningJob job, .setNewPrevHash snph] := by
      rw [effects]
      cases dbTx <;> simp [sentMessages, Effect.message?]
    refine ⟨?_, ?_, ?_, ?_⟩
    · rw [effects']
      exact open_ordered ran holds.ordered count
    · intro id ch found
      rw [sent]
      rcases channel_opened (step_cases stepped) found with ⟨old, before⟩ | ⟨_, _, rfl⟩
      · exact (holds.opened id old before).append _
      · exact ⟨openSuccess X c.state msg template, by simp [openings, Message.opening?], rfl⟩
    · intro _ id ch found
      rw [sent]
      rcases channel_opened (step_cases stepped) found with ⟨old, before⟩ | ⟨_, _, rfl⟩
      · exact (provided id old before).append _
      · exact ⟨snph, by simp, announced.snphChannel⟩
    · intro _
      have next : c'.state.nextChannelId = c.state.nextChannelId + 1 := by
        rw [state]
        rfl
      rw [next, count, sent, openings_append, List.length_append, UInt32.ofNat_add]
      rfl
  | submitted added state effects expected whole =>
    obtain ⟨ordered, same⟩ := share_ordered expected holds.ordered provided
    rw [← sentMessages_append, ← effects] at ordered same
    refine ⟨ordered, ?_, ?_, ?_⟩
    · intro id ch found
      rw [state] at found
      rw [Opened, same]
      exact holds.opened id ch found
    · intro _ id ch found
      rw [state] at found
      rw [effects, sentMessages_append]
      exact (provided id ch found).append _
    · intro _
      rw [state, same]
      exact count
  | unhandled state effects =>
    refine ⟨effects ▸ holds.ordered, ?_, ?_, ?_⟩
    · rw [state, effects]
      exact holds.opened
    · rw [state, effects]
      exact fun _ => provided
    · rw [state, effects]
      exact fun _ => count
  | broadcast added keys state effects all live' =>
    obtain ⟨_, result, w, ran, _, effects', _⟩ := step_broadcast stepped
    refine ⟨?_, ?_, ?_, ?_⟩
    · rw [effects']
      exact broadcast_ordered keyed ran holds.ordered holds.opened
    · intro id ch found
      rw [effects, sentMessages_append]
      rcases channel_opened (step_cases stepped) found with ⟨old, before⟩ | ⟨_, opens, _⟩
      · exact (holds.opened id old before).append _
      · cases opens
    · intro _ id ch found
      rw [effects, sentMessages_append]
      rcases channel_opened (step_cases stepped) found with ⟨old, before⟩ | ⟨_, opens, _⟩
      · exact (provided id old before).append _
      · cases opens
    · intro _
      rw [state.nextChannelId, count, effects, sentMessages_append, openings_append,
        openings_jobs all, List.append_nil]

/-! ### Runs -/

theorem Connection.run_orderly {inputs : List Input}
    (ran : run X dbTx (new pool) inputs = some c) : c.Orderly := by
  refine (Execution.run_history (fun past c => run X dbTx (new pool) past = some c ∧ c.Orderly)
    ?_ ?_ ran).2
  · rintro past c i c' ⟨reached, holds⟩ stepped
    exact ⟨Execution.run_snoc reached stepped, holds.step (run_allocated reached).keyed stepped⟩
  · refine ⟨rfl, ordered_nil, ?_, ?_, fun _ => rfl⟩
    · intro id ch found
      cases found
    · intro _ id ch found
      cases found

/-- Whatever a connection was sent, and whichever writes failed, what it has sent so far is in
order. -/
theorem Connection.run_ordered {inputs : List Input}
    (ran : run X dbTx (new pool) inputs = some c) {left : List Effect} (part : left <+: c.effects) :
    Ordered Message.Follows (sentMessages left) :=
  (run_orderly ran).ordered.of_prefix (part.filterMap Effect.message?)

end MiningPool
