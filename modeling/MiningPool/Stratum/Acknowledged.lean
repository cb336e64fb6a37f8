import MiningPool.Stratum.Runs

/-!
# Acknowledged shares

A success message and the credit for its share. Whichever write fails, a connection never
has the one without the other, and the credit is for the address of the channel that the
message names.

## Main result

`Connection.step_matched`: what a step adds is matched.
-/

namespace MiningPool

open Bitcoin

variable {X : Externals} {dbTx : Bool} {c c' : Connection} {i : Input}

/-- The effect is a success message or a credit. -/
def Effect.settles : Effect → Bool
  | .wire (.submitSharesSuccess _) => true
  | .credit _ _ => true
  | _ => false

/-- Every success message is followed by the credit for its channel, and every credit follows
one. -/
inductive Matched (s : ConnectionState) : List Effect → Prop
  | nil : Matched s []
  | other {e effects} (quiet : e.settles = false) (rest : Matched s effects) :
      Matched s (e :: effects)
  | answered {m channel event header effects}
      (found : s.channels.get? m.channelId = some channel)
      (own : event.minerAddress = channel.minerAddress) (rest : Matched s effects) :
      Matched s (.wire (.submitSharesSuccess m) :: .credit event header :: effects)

theorem Matched.of_quiet {s : ConnectionState} {effects : List Effect}
    (quiet : ∀ e ∈ effects, e.settles = false) : Matched s effects := by
  induction effects with
  | nil => exact .nil
  | cons e effects ih =>
    apply Matched.other (quiet e List.mem_cons_self)
    exact ih fun e' member => quiet e' (List.mem_cons_of_mem e member)

theorem Matched.append {s : ConnectionState} {effects later : List Effect}
    (quiet : ∀ e ∈ effects, e.settles = false) (matched : Matched s later) :
    Matched s (effects ++ later) := by
  induction effects with
  | nil => exact matched
  | cons e effects ih =>
    apply Matched.other (quiet e List.mem_cons_self)
    exact ih fun e' member => quiet e' (List.mem_cons_of_mem e member)

/-! ### Shares -/

private theorem quiet_of_isJob {e : Effect} (job : e.IsJob) : e.settles = false := by
  cases e with
  | wire m =>
    cases m with
    | submitSharesSuccess => cases job
    | _ => rfl
  | _ => cases job

/-- The effect is a message. -/
def Effect.IsWire (e : Effect) : Prop := ∃ m, e = .wire m

open Handler in
/-- A judgement ends before its answer, or is carried out. -/
private theorem judgeShare_stops (channel : ChannelInfo) (job : JobInfo)
    (share : SubmitSharesExtended) (coinbase : List UInt8) (header : Header) :
    StopsAt Effect.IsWire (judgement X channel job share coinbase header dbTx)
      (judgeShare X channel job share coinbase header dbTx) := by
  have answered : StopsAt Effect.IsWire ([accepted share] ++
      if dbTx then [.credit (creditOf X channel share header) header] else [])
      ((write (accepted share) "send SubmitSharesSuccess" >>= fun _ =>
        if dbTx then emit (.credit (creditOf X channel share header) header)
        else pure () : ConnectionM Unit)) := by
    apply (StopsAt.write ⟨_, rfl⟩ _).bind (Performs.write _ _)
    cases dbTx
    · exact StopsAt.pure
    · exact StopsAt.emit _
  unfold judgeShare judgement
  by_cases met : workHash X header ≤ channel.shareTarget
  · rw [if_pos met, if_neg (mt (displayHash_gt_iff channel header).mp (not_not_intro met)),
      List.append_assoc]
    by_cases solved : workHash X header ≤ networkTarget job.nbits
    · rw [if_pos solved, if_pos ((displayHash_le_iff job.nbits header).mpr solved)]
      exact (StopsAt.emit _).bind (Performs.emit _) answered
    · rw [if_neg solved, if_neg (mt (displayHash_le_iff job.nbits header).mp solved)]
      exact answered
  · rw [if_neg met, if_pos ((displayHash_gt_iff channel header).mpr met)]
    exact StopsAt.write ⟨_, rfl⟩ _

open Handler in
/-- So does a share. -/
private theorem handleSubmitSharesExtended_stops (share : SubmitSharesExtended)
    (w : World ConnectionState Effect) {e : String}
    (failed : (handleSubmitSharesExtended X share dbTx w).1 = .error e) :
    ∃ added lost rest, Effect.IsWire lost ∧
      shareEffects X w.state share dbTx = added ++ lost :: rest ∧
      (handleSubmitSharesExtended X share dbTx w).2.effects = w.effects ++ added := by
  unfold handleSubmitSharesExtended shareEffects at *
  simp only [bind_apply, getState] at failed ⊢
  cases found : w.state.channels.get? share.channelId with
  | none =>
    rw [found] at failed
    cases failed
  | some channel =>
    simp only [found] at failed ⊢
    cases current : channel.currentJob with
    | none =>
      simp only [current] at failed ⊢
      exact StopsAt.write ⟨_, rfl⟩ _ w e failed
    | some job =>
      simp only [current] at failed ⊢
      by_cases stale : job.jobId ≠ share.jobId
      · rw [if_pos stale] at failed ⊢
        rw [if_pos stale]
        exact StopsAt.write ⟨_, rfl⟩ _ w e failed
      rw [if_neg stale] at failed ⊢
      rw [if_neg stale]
      cases parsed : deserialize (shareCoinbase channel job share.extranonce.val) with
      | none =>
        rw [parsed] at failed
        cases failed
      | some coinbaseTx =>
        rw [parsed] at failed
        exact judgeShare_stops channel job share _ _ w e failed

/-- An accepted share leads to its answer and its credit, and all else is quiet. -/
private theorem shareEffects_matched (s : ConnectionState) (share : SubmitSharesExtended) :
    (∀ e ∈ shareEffects X s share true, e.settles = false) ∨
    ∃ channel solution event header, s.channels.get? share.channelId = some channel ∧
      event.minerAddress = channel.minerAddress ∧
      (solution = [] ∨ ∃ data header, solution = [.solution data header]) ∧
      shareEffects X s share true = solution ++ [accepted share, .credit event header] := by
  unfold shareEffects
  split
  · exact .inl (by simp)
  next channel found =>
  split
  · exact .inl (by simp [refused, Effect.settles])
  next job current =>
  split
  · exact .inl (by simp [refused, Effect.settles])
  simp only
  split
  · exact .inl (by simp)
  next coinbaseTx parsed =>
  unfold judgement
  split
  next met =>
    refine .inr ⟨channel, _, _, _, found, ?_, ?_, by rw [List.append_assoc]; rfl⟩
    · rfl
    · split
      · exact .inr ⟨_, _, rfl⟩
      · exact .inl rfl
  · exact .inl (by simp [refused, Effect.settles])

/-- Cut before a message, none of it is left but a solution. -/
private theorem quiet_of_cut {share : SubmitSharesExtended} {event : ShareEvent} {header : Header}
    {solution added rest : List Effect} {lost : Effect}
    (solves : solution = [] ∨ ∃ data header, solution = [.solution data header])
    (wire : lost.IsWire)
    (split : solution ++ [accepted share, .credit event header] = added ++ lost :: rest) :
    ∀ e ∈ added, e.settles = false := by
  obtain ⟨m, rfl⟩ := wire
  rcases solves with rfl | ⟨data, header, rfl⟩
  · rcases added with _ | ⟨e₁, _ | ⟨e₂, added⟩⟩ <;> simp at split ⊢
  · rcases added with _ | ⟨e₁, _ | ⟨e₂, _ | ⟨e₃, added⟩⟩⟩ <;> simp at split ⊢
    rw [← split.1]
    rfl

/-- A share has all its effects, or those before a message that could not be sent. -/
theorem Connection.step_submit {share : SubmitSharesExtended} {template : RawTemplate} {now : Int}
    {socket : List Bool}
    (stepped : c.step X dbTx (.frame (.submitSharesExtended (some share)) template now socket) =
      some c') :
    c'.state = c.state ∧ ∃ added, c'.effects = c.effects ++ added ∧
      (added = shareEffects X c.state share dbTx ∨ ∃ lost rest, lost.IsWire ∧
        shareEffects X c.state share dbTx = added ++ lost :: rest) := by
  have performed := handleSubmitSharesExtended_run X dbTx share ⟨c.state, c.effects, socket⟩
  simp only [step, step_live stepped, Bool.not_true, Bool.false_eq_true, if_false,
    Option.some.injEq] at stepped
  subst stepped
  refine ⟨performed.state, ?_⟩
  simp only [handle, handlerOf, dispatchMessage]
  cases outcome : (handleSubmitSharesExtended X share dbTx ⟨c.state, c.effects, socket⟩).1 with
  | ok u => exact ⟨_, performed.wholly outcome, .inl rfl⟩
  | error e =>
    obtain ⟨added, lost, rest, wire, split, effects⟩ :=
      handleSubmitSharesExtended_stops _ _ outcome
    exact ⟨added, effects, .inr ⟨lost, rest, wire, split⟩⟩

/-! ### Main result -/

/-- What a step adds is matched, in the state after it. -/
theorem Connection.step_matched (stepped : c.step X true i = some c') :
    ∃ added, c'.effects = c.effects ++ added ∧ Matched c'.state added := by
  cases step_cases stepped with
  | unanswered _ effects => exact ⟨[], by simpa using effects, .nil⟩
  | unserved added _ effects all =>
    refine ⟨_, effects, .of_quiet fun e member => ?_⟩
    rcases List.mem_cons.mp member with rfl | member
    · rfl
    · rcases all e member with job | ⟨address, rfl⟩
      · exact quiet_of_isJob job
      · rfl
  | opened _ _ effects =>
    refine ⟨_, effects, .of_quiet fun e member => ?_⟩
    simp at member
    rcases member with rfl | rfl | rfl | rfl <;> rfl
  | unhandled _ effects => exact ⟨[], by simpa using effects, .nil⟩
  | broadcast added _ _ effects all =>
    exact ⟨added, effects, .of_quiet fun e member => quiet_of_isJob (all e member)⟩
  | @submitted share =>
    obtain ⟨state, added, effects, cut⟩ := step_submit stepped
    refine ⟨added, effects, ?_⟩
    rw [state]
    rcases shareEffects_matched (X := X) c.state share with
      quiet | ⟨channel, solution, event, header, found, own, solves, script⟩
    · -- a refusal, or nothing
      apply Matched.of_quiet
      intro e member
      rcases cut with rfl | ⟨lost, rest, _, split⟩
      · exact quiet e member
      · exact quiet e (split ▸ List.mem_append_left _ member)
    rcases cut with rfl | ⟨lost, rest, wire, split⟩
    · rw [script]
      apply Matched.append
      · rcases solves with rfl | ⟨data, header, rfl⟩ <;> simp [Effect.settles]
      · exact .answered found own .nil
    · exact .of_quiet (quiet_of_cut solves wire (script ▸ split))

end MiningPool
