import MiningPool.Stratum.Handlers

/-!
# Runs of a connection

What one step of a connection can do, once and for all, and what follows for whole
runs: where channels come from, which target was advertised for them, and which
templates their jobs stand for.
-/

namespace MiningPool

open Bitcoin

/-! ### Steps -/

/-- Every way to step from `c` on an input to `c'`. -/
inductive Connection.Stepped (X : Externals) (dbTx : Bool) (c : Connection) :
    Input → Connection → Prop
  /-- The answer to an open request could not be written: the id is lost. -/
  | unanswered {msg template now socket c'}
      (state : c'.state = { c.state with nextChannelId := c.state.nextChannelId + 1 })
      (effects : c'.effects = c.effects) (dead : c'.live = false) :
      Stepped X dbTx c (.frame (.openExtendedMiningChannel (some msg)) template now socket) c'
  /-- The channel is in the table but its first job was not built or not sent. -/
  | unserved {msg template now socket c'} (added : List Effect)
      (state : c'.state = c.state.opened X msg template ∨ ∃ info : JobInfo, info.Of template ∧
        c'.state = (c.state.opened X msg template).setCurrentJob c.state.nextChannelId info)
      (effects : c'.effects = c.effects ++
        .wire (.openExtendedMiningChannelSuccess (openSuccess X c.state msg template)) :: added)
      (all : ∀ e ∈ added, e.IsJob ∨ ∃ address, e = .connected address now)
      (dead : c'.live = false) :
      Stepped X dbTx c (.frame (.openExtendedMiningChannel (some msg)) template now socket) c'
  | opened {msg template now socket c'} {snph : SetNewPrevHash} {job : NewExtendedMiningJob}
      {info : JobInfo}
      (built : buildJobMessages X (openedChannel X c.state msg template) c.state.nextJobId
        template = .ok (snph, job, info))
      (state : c'.state =
        (c.state.opened X msg template).setCurrentJob c.state.nextChannelId info)
      (effects : c'.effects = c.effects ++
        ([.wire (.openExtendedMiningChannelSuccess (openSuccess X c.state msg template)),
          .wire (.newExtendedMiningJob job), .wire (.setNewPrevHash snph)] ++
        if dbTx then [.connected (openedChannel X c.state msg template).minerAddress now]
        else [])) :
      Stepped X dbTx c (.frame (.openExtendedMiningChannel (some msg)) template now socket) c'
  | submitted {share template now socket c'} (added : List Effect)
      (state : c'.state = c.state) (effects : c'.effects = c.effects ++ added)
      (expected : added <+: shareEffects X c.state share dbTx)
      (whole : c'.live = true → added = shareEffects X c.state share dbTx) :
      Stepped X dbTx c (.frame (.submitSharesExtended (some share)) template now socket) c'
  | unhandled {frame template now socket c'} (state : c'.state = c.state)
      (effects : c'.effects = c.effects)
      (notOpen : ∀ msg, frame ≠ .openExtendedMiningChannel (some msg))
      (notShare : ∀ share, frame ≠ .submitSharesExtended (some share)) :
      Stepped X dbTx c (.frame frame template now socket) c'
  | broadcast {template order socket c'} (added : List Effect)
      (keys : order.Perm c.state.channels.keys) (state : c.state.JobsReplaced template c'.state)
      (effects : c'.effects = c.effects ++ added) (all : ∀ e ∈ added, e.IsJob)
      (live : c'.live = true) : Stepped X dbTx c (.templateChanged template order socket) c'

variable {X : Externals} {dbTx : Bool} {c c' : Connection} {i : Input}

theorem Connection.step_live (stepped : step X dbTx c i = some c') : c.live = true := by
  unfold step at stepped
  split at stepped
  · cases stepped
  next live => simpa using live

private theorem isOk_unit {result : Except String Unit} (h : result.isOk = true) :
    result = .ok () := by
  cases result with
  | ok u => rfl
  | error e => cases h

theorem Connection.step_cases (stepped : step X dbTx c i = some c') : Stepped X dbTx c i c' := by
  have live := step_live stepped
  simp only [step, live, Bool.not_true, Bool.false_eq_true, if_false] at stepped
  cases i with
  | templateChanged template order socket =>
    simp only at stepped
    split at stepped
    next keys =>
      cases stepped
      -- an error of the broadcast is logged, and the connection goes on
      obtain ⟨moved, added, effects, all⟩ := templateChanged_run
        (rfl : templateChanged X template order ⟨c.state, c.effects, socket⟩ = (_, _))
      exact .broadcast added keys moved effects all rfl
    · cases stepped
  | frame frame template now socket =>
    simp only [Option.some.injEq] at stepped
    subst stepped
    cases frame with
    -- frames that are no request, or do not parse, change nothing
    | handShake => exact .unhandled rfl rfl (by simp) (by simp)
    | headerless => exact .unhandled rfl rfl (by simp) (by simp)
    | other msgType => exact .unhandled rfl rfl (by simp) (by simp)
    | openExtendedMiningChannel payload =>
      cases payload with
      | none => exact .unhandled rfl rfl (by simp) (by simp)
      | some msg =>
        simp only [handle, handlerOf, dispatchMessage]
        cases ran : handleOpenExtendedMiningChannel X msg template now dbTx
            ⟨c.state, c.effects, socket⟩ with
        | mk result w =>
          cases result with
          -- an open request goes through, or fails before or after its answer
          | ok u =>
            obtain ⟨snph, job, info, built, state, effects⟩ :=
              handleOpenExtendedMiningChannel_ok ran
            exact .opened built state effects
          | error e =>
            rcases handleOpenExtendedMiningChannel_run ran with
              ⟨effects, state⟩ | ⟨added, effects, inOrder, state⟩
            · exact .unanswered state effects rfl
            · refine .unserved added state effects ?_ rfl
              intro e member
              rcases inOrder with rfl | ⟨job, snph, address, _, part⟩
              · cases member
              · have := part.subset member
                simp only [List.mem_cons, List.not_mem_nil, or_false] at this
                rcases this with rfl | rfl | rfl
                · exact .inl trivial
                · exact .inl trivial
                · exact .inr ⟨address, rfl⟩
    | submitSharesExtended payload =>
      cases payload with
      | none => exact .unhandled rfl rfl (by simp) (by simp)
      | some share =>
        have performed := handleSubmitSharesExtended_run X dbTx share
          ⟨c.state, c.effects, socket⟩
        -- a share is handled up to the first write that fails
        obtain ⟨added, expected, effects⟩ := performed.partly
        refine .submitted added performed.state effects expected ?_
        intro alive
        have done := performed.wholly (isOk_unit alive)
        rw [effects] at done
        exact List.append_cancel_left done

/-- A connection goes on after an input that succeeds. -/
theorem Connection.live_of_succeeds (stepped : c.step X dbTx i = some c')
    (succeeds : c.Succeeds X dbTx i) : c'.live = true := by
  have live := step_live stepped
  rw [Succeeds] at succeeds
  simp only [step, live, Bool.not_true, Bool.false_eq_true, if_false, succeeds]
    at stepped
  -- only the result decides whether the connection stays
  cases i with
  | frame =>
    cases stepped
    rfl
  | templateChanged =>
    simp only at stepped
    split at stepped
    · cases stepped
      rfl
    · cases stepped

/-- The handler of a broadcast takes a job id and runs the loop, and the connection goes on
from where it ends. -/
theorem Connection.step_broadcast {template : RawTemplate} {order : List UInt32}
    {socket : List Bool}
    (stepped : c.step X dbTx (.templateChanged template order socket) = some c') :
    order.Perm c.state.channels.keys ∧ ∃ result w,
      sendJobsToAllChannels X template c.state.nextJobId order
        ⟨{ c.state with nextJobId := c.state.nextJobId + 1 }, c.effects, socket⟩ = (result, w) ∧
      c'.state = w.state ∧ c'.effects = w.effects ∧
      (c.Succeeds X dbTx (.templateChanged template order socket) ↔ result = .ok ()) := by
  have live := step_live stepped
  simp only [step, live, Bool.not_true, Bool.false_eq_true, if_false] at stepped
  split at stepped
  next keys =>
    cases stepped
    exact ⟨keys, _, _, rfl, rfl, rfl, Iff.rfl⟩
  · cases stepped

/-- Over a socket that takes every write, a share is handled to the end. -/
theorem Connection.step_share (live : c.live = true) (share : SubmitSharesExtended)
    (template : RawTemplate) (now : Int) :
    c.step X dbTx (.frame (.submitSharesExtended (some share)) template now []) =
      some ⟨c.state, c.effects ++ shareEffects X c.state share dbTx, true⟩ := by
  have performed := handleSubmitSharesExtended_run X dbTx share ⟨c.state, c.effects, []⟩
  simp only [step, live, Bool.not_true, Bool.false_eq_true, if_false, handle, handlerOf,
    dispatchMessage, performed.writable rfl]
  rfl

/-- Effects are only added. -/
theorem Connection.Stepped.effects (stepped : Stepped X dbTx c i c') :
    ∃ added, c'.effects = c.effects ++ added := by
  cases stepped with
  | unanswered _ effects => exact ⟨[], by rw [effects, List.append_nil]⟩
  | unserved _ _ effects => exact ⟨_, effects⟩
  | opened _ _ effects => exact ⟨_, effects⟩
  | submitted _ _ effects => exact ⟨_, effects⟩
  | unhandled _ effects => exact ⟨[], by rw [effects, List.append_nil]⟩
  | broadcast _ _ _ effects => exact ⟨_, effects⟩

private theorem mem_added {effects added : List Effect} {n : Nat} {e : Effect}
    (new : effects.length ≤ n) (effect : (effects ++ added)[n]? = some e) : e ∈ added := by
  rw [List.getElem?_append_right new] at effect
  exact List.mem_of_getElem? effect

private theorem IsJob.wire {e : Effect} (h : e.IsJob) : ∃ m, e = .wire m := by
  cases e with
  | wire m => exact ⟨m, rfl⟩
  | _ => exact absurd h id

/-- A new effect is a message or a greeting, unless a share led to it. -/
theorem Connection.Stepped.effect_cases (stepped : Stepped X dbTx c i c') {n : Nat} {e : Effect}
    (new : c.effects.length ≤ n) (effect : c'.effects[n]? = some e) :
    (∃ m, e = .wire m) ∨ (∃ address now, e = .connected address now) ∨
    ∃ share template now socket,
      i = .frame (.submitSharesExtended (some share)) template now socket ∧
      ∃ added, added <+: shareEffects X c.state share dbTx ∧ c'.effects = c.effects ++ added := by
  cases stepped with
  | unanswered _ effects =>
    rw [effects, List.getElem?_eq_none new] at effect
    cases effect
  | unserved added _ effects all =>
    rw [effects] at effect
    -- the answer to the request, or what came after it
    rcases List.mem_cons.mp (mem_added new effect) with rfl | member
    · exact .inl ⟨_, rfl⟩
    · rcases all e member with job | ⟨address, rfl⟩
      · exact .inl (IsJob.wire job)
      · exact .inr (.inl ⟨address, _, rfl⟩)
  | opened _ _ effects =>
    rw [effects] at effect
    have member := mem_added new effect
    simp only [List.mem_append, List.mem_cons, List.not_mem_nil, or_false] at member
    -- the answer, the two messages of the job, and maybe the greeting
    rcases member with (rfl | rfl | rfl) | greeting
    · exact .inl ⟨_, rfl⟩
    · exact .inl ⟨_, rfl⟩
    · exact .inl ⟨_, rfl⟩
    · split at greeting
      · exact .inr (.inl ⟨_, _, List.mem_singleton.mp greeting⟩)
      · cases greeting
  | submitted added _ effects expected =>
    exact .inr (.inr ⟨_, _, _, _, rfl, added, expected, effects⟩)
  | unhandled _ effects =>
    rw [effects, List.getElem?_eq_none new] at effect
    cases effect
  | broadcast added _ _ effects all =>
    rw [effects] at effect
    exact .inl (IsJob.wire (all e (mem_added new effect)))

/-! ### Channels -/

/-- The template an input comes with. -/
def Input.template : Input → RawTemplate
  | .frame _ template _ _ => template
  | .templateChanged template _ _ => template

/-- The open request that an input is, if it is one. -/
def Input.opens : Input → Option OpenExtendedMiningChannel
  | .frame (.openExtendedMiningChannel payload) _ _ _ => payload
  | _ => none

/-- The open requests among some inputs, in order. -/
def opensOf (inputs : List Input) : List OpenExtendedMiningChannel := inputs.filterMap Input.opens

namespace Connection.Stepped

theorem opens_unhandled {frame : Frame} {template : RawTemplate} {now : Int}
    {socket : List Bool} (notOpen : ∀ msg, frame ≠ .openExtendedMiningChannel (some msg)) :
    (Input.frame frame template now socket).opens = none := by
  cases frame with
  | openExtendedMiningChannel payload =>
    cases payload with
    | none => rfl
    | some msg => exact absurd rfl (notOpen msg)
  | _ => rfl

theorem poolAddress (stepped : Stepped X dbTx c i c') :
    c'.state.poolAddress = c.state.poolAddress := by
  cases stepped with
  | unanswered state => rw [state]
  | unserved _ state =>
    rcases state with state | ⟨info, _, state⟩ <;> rw [state] <;> rfl
  | opened _ state =>
    rw [state]
    rfl
  | submitted _ state => rw [state]
  | unhandled state => rw [state]
  | broadcast _ _ state => exact state.poolAddress

/-- Channel ids count the open requests. -/
theorem nextChannelId (stepped : Stepped X dbTx c i c') :
    c'.state.nextChannelId = c.state.nextChannelId + UInt32.ofNat i.opens.toList.length := by
  cases stepped with
  | unanswered state =>
    rw [state]
    rfl
  | unserved _ state =>
    rcases state with state | ⟨info, _, state⟩ <;> rw [state] <;> rfl
  | opened _ state =>
    rw [state]
    rfl
  | submitted _ state =>
    rw [state]
    exact (UInt32.add_zero _).symm
  | unhandled state _ notOpen =>
    rw [state, opens_unhandled notOpen]
    exact (UInt32.add_zero _).symm
  | broadcast _ _ state =>
    rw [state.nextChannelId]
    exact (UInt32.add_zero _).symm

/-- A channel after a step was there before, is one from before with a new job from a
broadcast, or was just opened. -/
theorem channel_cases (stepped : Stepped X dbTx c i c') {id : UInt32} {ch' : ChannelInfo}
    (found : c'.state.channels.get? id = some ch') :
    c.state.channels.get? id = some ch' ∨
    (∃ ch info order socket, c.state.channels.get? id = some ch ∧ JobInfo.Of i.template info ∧
      i = .templateChanged i.template order socket ∧ ch' = { ch with currentJob := some info }) ∨
    ∃ msg, i.opens = some msg ∧ id = c.state.nextChannelId ∧
      (ch' = openedChannel X c.state msg i.template ∨ ∃ info : JobInfo, info.Of i.template ∧
        ch' = { openedChannel X c.state msg i.template with currentJob := some info }) := by
  -- the state of a request that went as far as its job
  have served {msg : OpenExtendedMiningChannel} {template : RawTemplate} {info : JobInfo}
      (found : ((c.state.opened X msg template).setCurrentJob c.state.nextChannelId
        info).channels.get? id = some ch') :
      c.state.channels.get? id = some ch' ∨ id = c.state.nextChannelId ∧
        ch' = { openedChannel X c.state msg template with currentJob := some info } := by
    rw [setCurrentJob_get?, ConnectionState.opened, KeyedTable.get?_insert] at found
    by_cases same : id = c.state.nextChannelId
    · rw [if_pos same, Option.map_some, if_pos same, Option.some.injEq] at found
      exact .inr ⟨same, found.symm⟩
    · rw [if_neg same] at found
      simpa [same] using found
  cases stepped with
  | unanswered state =>
    rw [state] at found
    exact .inl found
  | @unserved msg template _ _ _ _ state =>
    -- the request failed before or after its job was recorded
    rcases state with state | ⟨info, sourced, state⟩
    · rw [state, ConnectionState.opened, KeyedTable.get?_insert] at found
      split at found
      next same =>
        cases found
        exact .inr (.inr ⟨msg, rfl, same, .inl rfl⟩)
      · exact .inl found
    · rw [state] at found
      rcases served found with old | ⟨same, eq⟩
      · exact .inl old
      · exact .inr (.inr ⟨msg, rfl, same, .inr ⟨info, sourced, eq⟩⟩)
  | @opened msg _ _ _ _ _ _ info built state =>
    obtain ⟨_, _, _, _, _, _, sourced⟩ := buildJobMessages_ok built
    rw [state] at found
    rcases served found with old | ⟨same, eq⟩
    · exact .inl old
    · exact .inr (.inr ⟨msg, rfl, same, .inr ⟨info, sourced, eq⟩⟩)
  | submitted _ state =>
    rw [state] at found
    exact .inl found
  | unhandled state =>
    rw [state] at found
    exact .inl found
  | @broadcast template order socket _ _ _ state =>
    -- a broadcast reached the channel, or failed before
    rcases state.channel id with same | ⟨ch, info, old, sourced, eq⟩
    · rw [same] at found
      exact .inl found
    · rw [eq, Option.some.injEq] at found
      exact .inr (.inl ⟨ch, info, order, socket, old, sourced, rfl, found.symm⟩)

/-- A request that does not end the connection has its channel. -/
theorem served (stepped : Stepped X dbTx c i c') (live : c'.live = true)
    {msg : OpenExtendedMiningChannel} (opens : i.opens = some msg) :
    ∃ info : JobInfo, c'.state.channels.get? c.state.nextChannelId =
      some { openedChannel X c.state msg i.template with currentJob := some info } := by
  cases stepped with
  | unanswered _ _ dead => simp [dead] at live
  | unserved _ _ _ _ dead => simp [dead] at live
  | @opened _ _ _ _ _ _ _ info _ state =>
    cases opens
    rw [state, setCurrentJob_get?, ConnectionState.opened, KeyedTable.get?_insert, if_pos rfl,
      Option.map_some, if_pos rfl]
    exact ⟨info, rfl⟩
  | submitted => cases opens
  | unhandled _ _ notOpen =>
    rw [opens_unhandled notOpen] at opens
    cases opens
  | broadcast => cases opens

end Connection.Stepped

/-! ### Requests -/

/-- Input `i` of a run is the request that opened channel `id`: its number counts to the id and,
as long as the connection is alive, no later one does. -/
structure OpenedBy (inputs : List Input) (live : Bool) (id : UInt32) (i : Input)
    (msg : OpenExtendedMiningChannel) : Prop where
  opens : i.opens = some msg
  numbered : ∃ past later, inputs = past ++ i :: later ∧
    id = UInt32.ofNat (opensOf past).length ∧
    (live = true → ∀ k, (opensOf past).length < k → k < (opensOf inputs).length →
      id ≠ UInt32.ofNat k)

/-- Of the requests whose number counts to the id, the last one. -/
def LastRequest (requests : List OpenExtendedMiningChannel) (id : UInt32)
    (msg : OpenExtendedMiningChannel) : Prop :=
  ∃ n, requests[n]? = some msg ∧ id = UInt32.ofNat n ∧
    ∀ k, n < k → k < requests.length → id ≠ UInt32.ofNat k

theorem opensOf_append (past : List Input) (i : Input) :
    opensOf (past ++ [i]) = opensOf past ++ i.opens.toList := by
  rw [opensOf, List.filterMap_append]
  cases opens : i.opens <;> simp [opensOf, opens]

namespace OpenedBy

variable {inputs past : List Input} {live : Bool} {id : UInt32} {msg : OpenExtendedMiningChannel}

private theorem position (opened : OpenedBy inputs live id i msg) :
    ∃ n, (opensOf inputs)[n]? = some msg ∧ id = UInt32.ofNat n ∧
      (live = true → ∀ k, n < k → k < (opensOf inputs).length → id ≠ UInt32.ofNat k) := by
  obtain ⟨past, later, split, number, last⟩ := opened.numbered
  refine ⟨(opensOf past).length, ?_, number, last⟩
  rw [split, opensOf, opensOf, List.filterMap_append, List.filterMap_cons_some opened.opens,
    List.getElem?_append_right le_rfl, Nat.sub_self, List.getElem?_cons_zero]

theorem lastRequest (opened : OpenedBy inputs true id i msg) :
    LastRequest (opensOf inputs) id msg := by
  obtain ⟨n, at_n, number, last⟩ := opened.position
  exact ⟨n, at_n, number, last rfl⟩

/-- Before the ids wrap, the id is the number of its request. -/
theorem at_id (opened : OpenedBy inputs live id i msg)
    (bound : (opensOf inputs).length ≤ 2 ^ 32) : (opensOf inputs)[id.toNat]? = some msg := by
  obtain ⟨n, at_n, rfl, _⟩ := opened.position
  have inside := (List.getElem?_eq_some_iff.mp at_n).1
  have size : UInt32.size = 2 ^ 32 := rfl
  rwa [UInt32.toNat_ofNat_of_lt' (by omega)]

/-- The request of the last input. -/
theorem last (opens : i.opens = some msg) :
    OpenedBy (past ++ [i]) live (UInt32.ofNat (opensOf past).length) i msg where
  opens := opens
  numbered := by
    refine ⟨past, [], rfl, rfl, fun _ k above below => ?_⟩
    rw [opensOf_append, opens, Option.toList_some, List.length_append, List.length_singleton]
      at below
    omega

/-- One more input, which does not open the channel again. -/
theorem later {j : Input} {live' : Bool} (opened : OpenedBy past live id i msg)
    (alive : live' = true → live = true)
    (other : live' = true → j.opens.isSome → id ≠ UInt32.ofNat (opensOf past).length) :
    OpenedBy (past ++ [j]) live' id i msg where
  opens := opened.opens
  numbered := by
    obtain ⟨before, after, split, number, last⟩ := opened.numbered
    refine ⟨before, after ++ [j], by rw [split, List.append_assoc, List.cons_append], number, ?_⟩
    intro still k above below
    rcases Nat.lt_or_ge k (opensOf past).length with old | new
    · exact last (alive still) k above old
    -- only the input itself may have this number
    rw [opensOf_append, List.length_append] at below
    cases opens : j.opens with
    | none =>
      rw [opens, Option.toList_none, List.length_nil] at below
      omega
    | some =>
      rw [opens, Option.toList_some, List.length_singleton] at below
      obtain rfl : k = (opensOf past).length := by omega
      exact other still (by rw [opens, Option.isSome_some])

end OpenedBy

/-- The channel has the address and the target that its request asked for. -/
structure ChannelInfo.Asked (X : Externals) (pool : String) (raw : RawTemplate)
    (msg : OpenExtendedMiningChannel) (ch : ChannelInfo) : Prop where
  address : ch.minerAddress = parseMinerAddress X msg.userIdentity pool
  target : ch.channelTargetBe = openingTarget msg.nominalHashRate raw.setNewPrevHash.nBits

/-- What the channel table says about the open requests so far: ids are their count, and each
channel is the one its request asked for. -/
structure Connection.Allocated (X : Externals) (pool : String) (inputs : List Input)
    (c : Connection) : Prop where
  poolAddress : c.state.poolAddress = pool
  nextChannelId : c.state.nextChannelId = UInt32.ofNat (opensOf inputs).length
  identified : ∀ id ch, c.state.channels.get? id = some ch →
    ch.channelId = id ∧ ch.extranoncePrefix = extranoncePrefixOf id
  requested : ∀ id ch, c.state.channels.get? id = some ch →
    ∃ i msg, OpenedBy inputs c.live id i msg ∧ ch.Asked X pool i.template msg

theorem Connection.Allocated.keyed {pool : String} {inputs : List Input}
    (allocated : c.Allocated X pool inputs) : c.state.Keyed := by
  intro id ch found
  exact (allocated.identified id ch found).1

theorem Connection.step_allocated (ran : step X dbTx c i = some c') {pool : String}
    {past : List Input} (holds : c.Allocated X pool past) : c'.Allocated X pool (past ++ [i]) := by
  have stepped := step_cases ran
  constructor
  case poolAddress => rw [stepped.poolAddress, holds.poolAddress]
  case nextChannelId =>
    rw [stepped.nextChannelId, holds.nextChannelId, opensOf_append, List.length_append,
      UInt32.ofNat_add]
  case identified =>
    intro id ch found
    rcases stepped.channel_cases found with old | ⟨base, _, _, _, old, _, _, rfl⟩ |
      ⟨msg, _, rfl, rfl | ⟨info, _, rfl⟩⟩
    · exact holds.identified id ch old
    · exact holds.identified id base old
    · exact ⟨rfl, rfl⟩
    · exact ⟨rfl, rfl⟩
  case requested =>
    intro id ch found
    have fresh {msg : OpenExtendedMiningChannel} (opens : i.opens = some msg)
        (next : id = c.state.nextChannelId)
        (asked : ch.minerAddress = parseMinerAddress X msg.userIdentity c.state.poolAddress ∧
          ch.channelTargetBe = openingTarget msg.nominalHashRate i.template.setNewPrevHash.nBits) :
        ∃ j msg, OpenedBy (past ++ [i]) c'.live id j msg ∧ ch.Asked X pool j.template msg := by
      rw [holds.poolAddress] at asked
      exact ⟨i, msg, next.trans holds.nextChannelId ▸ .last opens, asked.1, asked.2⟩
    -- where the step opened the channel again, what is there is the new one
    by_cases again : c'.live = true ∧ i.opens.isSome ∧ id = c.state.nextChannelId
    · obtain ⟨alive, request, rfl⟩ := again
      obtain ⟨msg, opens⟩ := Option.isSome_iff_exists.mp request
      obtain ⟨info, served⟩ := stepped.served alive opens
      rw [found, Option.some.injEq] at served
      subst served
      exact fresh opens rfl ⟨rfl, rfl⟩
    have kept {base : ChannelInfo} (old : c.state.channels.get? id = some base)
        (same : ch.minerAddress = base.minerAddress ∧ ch.channelTargetBe = base.channelTargetBe) :
        ∃ j msg, OpenedBy (past ++ [i]) c'.live id j msg ∧ ch.Asked X pool j.template msg := by
      obtain ⟨j, msg, opened, asked⟩ := holds.requested id base old
      refine ⟨j, msg, opened.later (fun _ => step_live ran) fun alive request next => ?_,
        same.1.trans asked.address, same.2.trans asked.target⟩
      exact again ⟨alive, request, next.trans holds.nextChannelId.symm⟩
    rcases stepped.channel_cases found with old | ⟨base, _, _, _, old, _, _, rfl⟩ |
      ⟨msg, opens, next, rfl | ⟨info, _, rfl⟩⟩
    · exact kept old ⟨rfl, rfl⟩
    · exact kept old ⟨rfl, rfl⟩
    · exact fresh opens next ⟨rfl, rfl⟩
    · exact fresh opens next ⟨rfl, rfl⟩

theorem Connection.allocated_new (pool : String) : (new pool).Allocated X pool [] where
  poolAddress := rfl
  nextChannelId := rfl
  identified := by
    intro id ch found
    cases found
  requested := by
    intro id ch found
    cases found

theorem Connection.run_allocated {pool : String} {inputs : List Input}
    (ran : run X dbTx (new pool) inputs = some c) : c.Allocated X pool inputs :=
  Execution.run_history (fun past c => c.Allocated X pool past)
    (fun _ _ _ _ holds stepped => step_allocated stepped holds) (allocated_new pool) ran

/-- The request that a channel of a live connection is for. -/
theorem Connection.run_requested {pool : String} {inputs : List Input}
    (ran : run X dbTx (new pool) inputs = some c) (live : c.live = true) {id : UInt32}
    {ch : ChannelInfo} (found : c.state.channels.get? id = some ch) :
    ∃ msg, LastRequest (opensOf inputs) id msg ∧
      ch.minerAddress = parseMinerAddress X msg.userIdentity pool := by
  obtain ⟨i, msg, opened, asked⟩ := (run_allocated ran).requested id ch found
  rw [live] at opened
  exact ⟨msg, opened.lastRequest, asked.address⟩

/-- Before the next channel id wraps, it is not in use. -/
theorem Connection.Allocated.next_fresh {pool : String} {past : List Input}
    (holds : c.Allocated X pool past) (bound : (opensOf past).length < 2 ^ 32) :
    c.state.channels.get? c.state.nextChannelId = none := by
  cases found : c.state.channels.get? c.state.nextChannelId with
  | none => rfl
  | some ch =>
    obtain ⟨_, msg, opened, _⟩ := holds.requested _ ch found
    have at_id := opened.at_id bound.le
    have size : UInt32.size = 2 ^ 32 := rfl
    rw [holds.nextChannelId, UInt32.toNat_ofNat_of_lt' (by omega), List.getElem?_length] at at_id
    cases at_id

/-- Every current job was built from a template the connection was given. -/
theorem Connection.run_jobs {pool : String} {inputs : List Input}
    (ran : run X dbTx (new pool) inputs = some c) {id : UInt32} {ch : ChannelInfo} {job : JobInfo}
    (found : c.state.channels.get? id = some ch) (current : ch.currentJob = some job) :
    ∃ i ∈ inputs, job.Of i.template := by
  refine Execution.run_history (fun past c => ∀ id ch job, c.state.channels.get? id = some ch →
    ch.currentJob = some job → ∃ i ∈ past, job.Of i.template) ?_ ?_ ran id ch job found current
  · intro past c i c' holds stepped id ch job found current
    rcases (step_cases stepped).channel_cases found with old |
      ⟨_, info, _, _, _, sourced, _, rfl⟩ | ⟨_, _, _, rfl | ⟨info, sourced, rfl⟩⟩
    · obtain ⟨j, member, sourced⟩ := holds id ch job old current
      exact ⟨j, List.mem_append_left _ member, sourced⟩
    · cases current
      exact ⟨i, List.mem_append_right _ List.mem_cons_self, sourced⟩
    · cases current
    · cases current
      exact ⟨i, List.mem_append_right _ List.mem_cons_self, sourced⟩
  · intro id ch job found
    cases found

/-! ### A connection of the test network -/

/-- An open request of a miner that declares no hash rate. -/
def regtestOpen : OpenExtendedMiningChannel where
  requestId := 1
  userIdentity := regtestAddress
  nominalHashRate := 0
  maxTarget := Bytes.zeros 32
  minExtranonceSize := 4

def regtestInputs : List Input :=
  [.frame (.openExtendedMiningChannel (some regtestOpen)) regtestTemplate 1700000000 []]

/-- The job of that channel, the coinbase of its first share, and the share. -/
def regtestJob : JobInfo where
  jobId := 1
  templateId := 0
  coinb1 := (jobParts regtestTemplate regtestScript).coinb1
  coinb2 := (jobParts regtestTemplate regtestScript).coinb2
  merklePath := []
  prevHash := Bytes.zeros 32
  nbits := 0x207fffff
  ntime := 1700000000
  version := 0x20000000

def regtestChannel : ChannelInfo where
  channelId := 0
  extranoncePrefix := extranoncePrefixOf 0
  minerAddress := regtestAddress
  currentJob := some regtestJob
  channelTargetBe := compactToTargetBe 0x207fffff

def regtestCoinbaseTx : Transaction where
  version := 2
  lockTime := 0
  input := [⟨OutPoint.null, [0x01, 0x65] ++ List.replicate 36 0, 0xffffffff, []⟩]
  output := [⟨5000000000, regtestScript⟩]

def regtestShare : SubmitSharesExtended where
  channelId := 0
  sequenceNumber := 0
  jobId := 1
  nonce := 0
  ntime := 1700000000
  version := 0x20000000
  extranonce := ⟨[0, 0, 0, 0], by decide⟩

def regtestConnection : Connection :=
  ((Connection.new regtestAddress).run regtestExternals true regtestInputs).getD (Connection.new "")

/-- The two messages and the job of a test template. -/
def regtestMessages (raw : RawTemplate) (fits : (jobParts raw regtestScript).coinb1.length ≤ 65535 ∧
    (jobParts raw regtestScript).coinb2.length ≤ 65535) :
    SetNewPrevHash × NewExtendedMiningJob × JobInfo :=
  ({ channelId := 0
     jobId := 1
     prevHash := raw.setNewPrevHash.prevHash
     minNtime := raw.setNewPrevHash.headerTimestamp
     nbits := raw.setNewPrevHash.nBits },
   { channelId := 0
     jobId := 1
     minNtime := none
     version := raw.newTemplate.version
     versionRollingAllowed := true
     merklePath := raw.newTemplate.merklePath
     coinbaseTxPrefix := ⟨(jobParts raw regtestScript).coinb1, fits.1⟩
     coinbaseTxSuffix := ⟨(jobParts raw regtestScript).coinb2, fits.2⟩ },
   { regtestJob with
     coinb1 := (jobParts raw regtestScript).coinb1
     coinb2 := (jobParts raw regtestScript).coinb2 })

/-- A job of the test network, without template outputs. -/
def legacyMessages : SetNewPrevHash × NewExtendedMiningJob × JobInfo :=
  regtestMessages regtestTemplate (by decide)

/-- A job of the test network with one. -/
def commitmentMessages : SetNewPrevHash × NewExtendedMiningJob × JobInfo :=
  regtestMessages commitmentTemplate (by decide)

theorem legacyMessages_built :
    buildJobMessages regtestExternals regtestChannel 1 regtestTemplate = .ok legacyMessages := by
  decide +kernel

theorem commitmentMessages_built :
    buildJobMessages regtestExternals regtestChannel 1 commitmentTemplate =
      .ok commitmentMessages := by
  decide +kernel

end MiningPool
