import MiningPool.Stratum.Coinbase
import MiningPool.Stratum.Notices

/-!
# Replies to shares

The handler of a share has six exits. Four of them reply, with the channel and the sequence
number of the share; a share for an unknown channel and one whose coinbase does not parse
are only logged. The latter does not occur when templates are built from blocks.

## Main result

`share_answered_iff`: with writes succeeding, the one message sent about a share is its reply,
if and only if the share leaves by one of the four.
-/

namespace MiningPool

open Bitcoin

variable {X : Externals} {dbTx : Bool} {c c' : Connection} {pool : String}

/-! ### Replies -/

def Effect.message? : Effect → Option Message
  | .wire m => some m
  | _ => none

/-- The messages among some effects, in order. -/
def sentMessages (effects : List Effect) : List Message := effects.filterMap Effect.message?

@[simp] theorem sentMessages_nil : sentMessages [] = [] := rfl

@[simp] theorem sentMessages_append (effects added : List Effect) :
    sentMessages (effects ++ added) = sentMessages effects ++ sentMessages added :=
  List.filterMap_append

@[simp] theorem sentMessages_wire (m : Message) (effects : List Effect) :
    sentMessages (.wire m :: effects) = m :: sentMessages effects := rfl

@[simp] theorem sentMessages_solution (sol : SubmitSolutionData) (header : Header) :
    sentMessages [.solution sol header] = [] := rfl

@[simp] theorem sentMessages_credit (event : ShareEvent) (header : Header) :
    sentMessages [.credit event header] = [] := rfl

/-- The message replies to this share. -/
def Message.RepliesTo (share : SubmitSharesExtended) : Message → Prop
  | .submitSharesSuccess m =>
    m.channelId = share.channelId ∧ m.lastSequenceNumber = share.sequenceNumber
  | .submitSharesError m =>
    m.channelId = share.channelId ∧ m.sequenceNumber = share.sequenceNumber
  | _ => False

/-- One message was sent, and it replies to the share. -/
def AnsweredOnce (share : SubmitSharesExtended) (added : List Effect) : Prop :=
  ∃ m, sentMessages added = [m] ∧ m.RepliesTo share

/-- The channel of the share is open, and if the share is for its current job, the coinbase
parses. -/
def Answerable (s : ConnectionState) (share : SubmitSharesExtended) : Prop :=
  ∃ ch, s.channels.get? share.channelId = some ch ∧
    ∀ info, ch.currentJob = some info → info.jobId = share.jobId →
      (deserialize (shareCoinbase ch info share.extranonce.val)).isSome

private theorem refused_answers (share : SubmitSharesExtended) (errorCode : ShareErrorCode) :
    AnsweredOnce share [refused share errorCode] := by
  simp [AnsweredOnce, refused, Message.RepliesTo]

private theorem accepted_answers (share : SubmitSharesExtended) :
    AnsweredOnce share [accepted share] := by
  simp [AnsweredOnce, accepted, Message.RepliesTo]

/-- Only the messages count. -/
private theorem answeredOnce_congr {share : SubmitSharesExtended} {effects effects' : List Effect}
    (same : sentMessages effects = sentMessages effects') (answered : AnsweredOnce share effects') :
    AnsweredOnce share effects := by
  rw [AnsweredOnce, same]
  exact answered

private theorem judgement_answers (channel : ChannelInfo) (job : JobInfo)
    (share : SubmitSharesExtended) (coinbase : List UInt8) (header : Header) :
    AnsweredOnce share (judgement X channel job share coinbase header dbTx) := by
  by_cases met : workHash X header ≤ channel.shareTarget
  · -- neither a solution nor a credit is a message
    have same : sentMessages (judgement X channel job share coinbase header dbTx) =
        sentMessages [accepted share] := by
      rw [judgement, if_pos met]
      simp [accepted, apply_ite sentMessages]
    exact answeredOnce_congr same (accepted_answers share)
  · rw [judgement, if_neg met]
    exact refused_answers share _

private theorem not_answered_nil (share : SubmitSharesExtended) : ¬AnsweredOnce share [] := by
  rintro ⟨m, none, _⟩
  cases none

/-- The exits of the handler, in its order. -/
theorem shareEffects_answered_iff (s : ConnectionState) (share : SubmitSharesExtended) :
    AnsweredOnce share (shareEffects X s share dbTx) ↔ Answerable s share := by
  unfold shareEffects
  cases found : s.channels.get? share.channelId with
  | none =>
    refine iff_of_false (not_answered_nil share) ?_
    rintro ⟨ch, open_, _⟩
    rw [found] at open_
    cases open_
  | some ch =>
    have answerable : Answerable s share ↔ ∀ info, ch.currentJob = some info →
        info.jobId = share.jobId →
          (deserialize (shareCoinbase ch info share.extranonce.val)).isSome := by
      simp [Answerable, found]
    rw [answerable]
    simp only
    cases current : ch.currentJob with
    | none => exact iff_of_true (refused_answers share _) (by simp)
    | some job =>
      simp only [Option.some.injEq, forall_eq']
      by_cases stale : job.jobId ≠ share.jobId
      · rw [if_pos stale]
        exact iff_of_true (refused_answers share _) fun quoted => absurd quoted stale
      · rw [if_neg stale]
        cases parsed : deserialize (shareCoinbase ch job share.extranonce.val) with
        | none =>
          refine iff_of_false (not_answered_nil share) ?_
          intro parses
          cases parses (not_not.mp stale)
        | some coinbaseTx => exact iff_of_true (judgement_answers ch job share _ _) fun _ => rfl

/-! ### Coinbases that parse -/

/-- The template was built from a block of the node. -/
def RawTemplate.FromBlock (raw : RawTemplate) : Prop :=
  ∃ templateId header cb path, buildRawTemplate templateId header cb path = .ok raw

/-- Whatever extranonce a share brings, the coinbase of such a template's job parses. -/
theorem coinbase_parses {raw : RawTemplate} (built : raw.FromBlock) {info : JobInfo}
    (sourced : info.Of raw) (channel : ChannelInfo) (ext2 : List UInt8) :
    (deserialize (shareCoinbase channel info ext2)).isSome := by
  obtain ⟨_, _, _, _, built⟩ := built
  obtain ⟨_, _, _, _, _, _, _, _, count, outs, _⟩ := buildRawTemplate_ok built
  obtain ⟨script, coinb1, coinb2, short⟩ := sourced.coinbase
  rw [coinb2] at short
  rw [shareCoinbase, coinb1, coinb2, deserialize_parts short count outs]
  rfl

/-! ### Runs -/

/-- In every reachable state, and however a share is handled with all writes succeeding, it is
answered once and with nothing else sent, if and only if it is answerable. With templates
that were built from blocks, this means that its channel is open. -/
theorem share_answered_iff {inputs : List Input}
    (ran : Connection.run X dbTx (Connection.new pool) inputs = some c)
    {share : SubmitSharesExtended} {template : RawTemplate} {now : Int} {socket : List Bool}
    (stepped : c.step X dbTx (.frame (.submitSharesExtended (some share)) template now socket) =
      some c')
    (written : c.Succeeds X dbTx
      (.frame (.submitSharesExtended (some share)) template now socket)) :
    (AnsweredOnce share (c.added c') ↔ Answerable c.state share) ∧
    ((∀ i ∈ inputs, i.template.FromBlock) →
      (Answerable c.state share ↔ (c.state.channels.get? share.channelId).isSome)) := by
  constructor
  · have alive := Connection.live_of_succeeds stepped written
    cases Connection.step_cases stepped with
    | submitted added _ effects _ whole =>
      rw [Connection.added_eq effects, whole alive]
      exact shareEffects_answered_iff c.state share
    | unhandled _ _ _ notShare => exact absurd rfl (notShare share)
  · intro built
    constructor
    · rintro ⟨ch, found, _⟩
      rw [found]
      rfl
    · intro open_
      obtain ⟨ch, found⟩ := Option.isSome_iff_exists.mp open_
      refine ⟨ch, found, fun info current _ => ?_⟩
      obtain ⟨i, member, sourced⟩ := Connection.run_jobs ran found current
      exact coinbase_parses (built i member) sourced ch share.extranonce.val

/-- The first share of the test network is answered. -/
theorem share_answered_regtest :
    ∃ c', regtestConnection.step regtestExternals true
        (.frame (.submitSharesExtended (some regtestShare)) regtestTemplate 1700000010 []) =
          some c' ∧
      AnsweredOnce regtestShare (regtestConnection.added c') := by
  have checks : (Connection.new regtestAddress).run regtestExternals true regtestInputs =
        some regtestConnection ∧
      (regtestConnection.step regtestExternals true
        (.frame (.submitSharesExtended (some regtestShare)) regtestTemplate 1700000010
          [])).isSome ∧
      regtestConnection.Succeeds regtestExternals true
        (.frame (.submitSharesExtended (some regtestShare)) regtestTemplate 1700000010 []) ∧
      (regtestConnection.state.channels.get? regtestShare.channelId).isSome := by
    decide +kernel
  obtain ⟨ran, handled, written, open_⟩ := checks
  obtain ⟨c', stepped⟩ := Option.isSome_iff_exists.mp handled
  obtain ⟨iff, reduced⟩ := share_answered_iff ran stepped written
  refine ⟨c', stepped, iff.mpr ((reduced ?_).mpr open_)⟩
  intro i member
  obtain rfl := List.mem_singleton.mp member
  exact ⟨0, regtestBlock.header, regtestBlock.coinbase, regtestBlock.merklePath, rfl⟩

/-- A share for a channel that was never opened gets no answer. -/
theorem unknown_channel_unanswered :
    ¬∀ inputs c c' share template now socket,
      Connection.run regtestExternals true (Connection.new regtestAddress) inputs = some c →
      c.step regtestExternals true
        (.frame (.submitSharesExtended (some share)) template now socket) = some c' →
      c.Succeeds regtestExternals true
        (.frame (.submitSharesExtended (some share)) template now socket) →
      AnsweredOnce share (c.added c') := by
  intro answered
  obtain ⟨m, sent, _⟩ := answered [] (Connection.new regtestAddress) (Connection.new regtestAddress)
    regtestShare regtestTemplate 1700000010 [] rfl rfl rfl
  cases sent

end MiningPool
