import MiningPool.Pool.Runs
import MiningPool.Stratum.Replies

/-!
# Requests and replies

What a client can rely on when it matches the replies of the pool with its requests. The desk
that it may imagine at the other end counts the channels it has opened, and replies to each
request at once: to an opening with the next channel, and to a share if its channel is one of
those. Templates, jobs, targets and other clients have no part in it.

## Main result

`Pool.replies_in_order`: the replies that leave a connection are a beginning of those of the
desk, and when nothing is left to send they are all of them, but for the last if it could not
be written.
-/

namespace MiningPool

/-! ### The desk -/

inductive Request
  | opening (requestId : UInt32)
  | share (channelId sequenceNumber : UInt32)
deriving DecidableEq

/-- A share is judged whether it is accepted or not. -/
inductive Reply
  | opened (requestId channelId : UInt32)
  | judged (channelId sequenceNumber : UInt32)
deriving DecidableEq

structure Desk where
  opened : Nat
  replies : List Reply

namespace Desk

def new : Desk := ⟨0, []⟩

/-- Channel ids are 32-bit words and wrap. -/
def serve (d : Desk) : Request → Desk
  | .opening requestId =>
    ⟨d.opened + 1, d.replies ++ [.opened requestId (UInt32.ofNat d.opened)]⟩
  | .share channelId sequenceNumber =>
    if channelId.toNat < d.opened then
      { d with replies := d.replies ++ [.judged channelId sequenceNumber] }
    else d

def after (requests : List Request) : Desk := requests.foldl serve new

theorem after_append (requests later : List Request) :
    after (requests ++ later) = later.foldl serve (after requests) := List.foldl_append

theorem serve_grows (d : Desk) (r : Request) : d.replies <+: (d.serve r).replies := by
  cases r with
  | opening => exact List.prefix_append _ _
  | share channelId =>
    rw [serve]
    split
    · exact List.prefix_append _ _
    · exact List.prefix_refl _

/-- More requests do not change the replies so far. -/
theorem after_mono {requests more : List Request} (first : requests <+: more) :
    (after requests).replies <+: (after more).replies := by
  obtain ⟨later, rfl⟩ := first
  induction later using List.reverseRecOn with
  | nil => rw [List.append_nil]
  | append_singleton later r ih =>
    rw [← List.append_assoc, after_append (requests ++ later)]
    exact ih.trans (serve_grows _ r)

theorem serve_share_opened (d : Desk) (channelId sequenceNumber : UInt32) :
    (d.serve (.share channelId sequenceNumber)).opened = d.opened := by
  rw [serve]
  split <;> rfl

end Desk

/-! ### Requests and replies of a connection -/

def Frame.request? : Frame → Option Request
  | .openExtendedMiningChannel (some msg) => some (.opening msg.requestId)
  | .submitSharesExtended (some share) => some (.share share.channelId share.sequenceNumber)
  | _ => none

def Input.request? : Input → Option Request
  | .frame received _ _ _ => received.request?
  | .templateChanged .. => none

def Message.reply? : Message → Option Reply
  | .openExtendedMiningChannelSuccess m => some (.opened m.requestId m.channelId)
  | .submitSharesSuccess m => some (.judged m.channelId m.lastSequenceNumber)
  | .submitSharesError m => some (.judged m.channelId m.sequenceNumber)
  | _ => none

/-- The replies among some effects, in order. -/
def repliesIn (effects : List Effect) : List Reply :=
  (sentMessages effects).filterMap Message.reply?

@[simp] theorem repliesIn_nil : repliesIn [] = [] := rfl

@[simp] theorem repliesIn_append (effects added : List Effect) :
    repliesIn (effects ++ added) = repliesIn effects ++ repliesIn added := by
  simp [repliesIn]

theorem repliesIn_mono {part whole : List Effect} (first : part <+: whole) :
    repliesIn part <+: repliesIn whole := by
  obtain ⟨rest, rfl⟩ := first
  rw [repliesIn_append]
  exact List.prefix_append _ _

variable {X : Externals} {dbTx : Bool} {c c' : Connection} {i : Input} {d : Desk}

/-- The effects of a share have the one reply that it is due. -/
private theorem repliesIn_answered {share : SubmitSharesExtended} {added : List Effect}
    (answered : AnsweredOnce share added) :
    repliesIn added = [.judged share.channelId share.sequenceNumber] := by
  obtain ⟨m, sent, replies⟩ := answered
  rw [repliesIn, sent]
  cases m with
  | submitSharesSuccess m =>
    obtain ⟨channel, number⟩ := replies
    simp [Message.reply?, channel, number]
  | submitSharesError m =>
    obtain ⟨channel, number⟩ := replies
    simp [Message.reply?, channel, number]
  | _ => exact absurd replies id

private theorem repliesIn_quiet {added : List Effect}
    (all : ∀ e ∈ added, e.IsJob ∨ ∃ address now, e = .connected address now) :
    repliesIn added = [] := by
  induction added with
  | nil => rfl
  | cons e added ih =>
    have rest := ih fun e member => all e (List.mem_cons_of_mem _ member)
    have one : repliesIn [e] = [] := by
      rcases all e List.mem_cons_self with job | ⟨address, now, rfl⟩
      · cases e with
        | wire m => cases m <;> first | rfl | exact absurd job id
        | _ => rfl
      · rfl
    rw [← List.singleton_append, repliesIn_append, one, rest]
    rfl

/-! ### A connection keeps the desk's order -/

/-- The connection is where the desk is. -/
structure Connection.At (c : Connection) (d : Desk) : Prop where
  counted : c.state.nextChannelId = UInt32.ofNat d.opened
  channels : ∀ id, (c.state.channels.get? id).isSome ↔ id.toNat < d.opened
  replied : repliesIn c.effects = d.replies

/-- The jobs of the connection were built from blocks. -/
def Connection.FromBlocks (c : Connection) : Prop :=
  ∀ id ch job, c.state.channels.get? id = some ch → ch.currentJob = some job →
    ∃ raw : RawTemplate, raw.FromBlock ∧ job.Of raw

/-- A reply that could not be written ends the connection. -/
structure Connection.Broken (c : Connection) (d d' : Desk) : Prop where
  dead : c.live = false
  before : d.replies <+: repliesIn c.effects
  due : repliesIn c.effects <+: d'.replies

private theorem lt_succ_iff (id : UInt32) (n : Nat) :
    id.toNat < n + 1 ↔ id = UInt32.ofNat n ∨ id.toNat < n := by
  have word := id.toNat_lt
  have size : UInt32.size = 2 ^ 32 := rfl
  by_cases fits : n < 2 ^ 32
  · have value : (UInt32.ofNat n).toNat = n := UInt32.toNat_ofNat_of_lt' (by omega)
    rw [← UInt32.toNat_inj, value]
    omega
  · -- all ids are in use
    exact iff_of_true (by omega) (.inr (by omega))

/-- What a share is due. -/
private theorem share_replies (at_ : c.At d) (blocks : c.FromBlocks)
    (share : SubmitSharesExtended) :
    (d.serve (.share share.channelId share.sequenceNumber)).replies =
      repliesIn c.effects ++ repliesIn (shareEffects X c.state share dbTx) := by
  rw [Desk.serve, at_.replied]
  cases found : c.state.channels.get? share.channelId with
  | none =>
    have closed : ¬share.channelId.toNat < d.opened := by
      rw [← at_.channels, found]
      exact Bool.false_ne_true
    simp [closed, shareEffects, found]
  | some ch =>
    have open_ : share.channelId.toNat < d.opened := by
      rw [← at_.channels, found]
      rfl
    have answerable : Answerable c.state share := by
      refine ⟨ch, found, fun job current _ => ?_⟩
      obtain ⟨raw, built, sourced⟩ := blocks _ ch job found current
      exact coinbase_parses built sourced ch share.extranonce.val
    rw [if_pos open_, repliesIn_answered ((shareEffects_answered_iff c.state share).mpr answerable)]

/-- The channel of a request is one more that is open, in a state that has a job for it or not. -/
private theorem opened_channels (at_ : c.At d) (msg : OpenExtendedMiningChannel)
    (template : RawTemplate) (id : UInt32) :
    ((c.state.opened X msg template).channels.get? id).isSome ↔ id.toNat < d.opened + 1 := by
  rw [ConnectionState.opened, KeyedTable.get?_insert, at_.counted, lt_succ_iff]
  split
  next same => simp [same]
  next other => simp [other, at_.channels]

private theorem setCurrentJob_isSome (s : ConnectionState) (first id : UInt32) (info : JobInfo) :
    ((s.setCurrentJob first info).channels.get? id).isSome = (s.channels.get? id).isSome := by
  rw [setCurrentJob_get?, Option.isSome_map]

private theorem repliesIn_opening (s : ConnectionState) (msg : OpenExtendedMiningChannel)
    (template : RawTemplate) {added : List Effect} (quiet : repliesIn added = []) :
    repliesIn (.wire (.openExtendedMiningChannelSuccess (openSuccess X s msg template)) :: added) =
      [.opened msg.requestId s.nextChannelId] := by
  rw [← List.singleton_append, repliesIn_append, quiet]
  rfl

/-- A step serves the request that it brings, if it brings one. -/
theorem Connection.step_at (at_ : c.At d) (blocks : c.FromBlocks)
    (stepped : c.step X dbTx i = some c') :
    c'.At (i.request?.toList.foldl Desk.serve d) ∨
      ∃ r, i.request? = some r ∧ c'.Broken d (d.serve r) := by
  cases step_cases stepped with
  | @unanswered msg _ _ _ _ state effects dead =>
    have same : repliesIn c'.effects = d.replies := by rw [effects, at_.replied]
    exact .inr ⟨.opening msg.requestId, rfl, dead, same ▸ List.prefix_refl _,
      same ▸ d.serve_grows _⟩
  | @unserved msg template now _ _ added state effects all dead =>
    have quiet : repliesIn added = [] := by
      apply repliesIn_quiet
      intro e member
      rcases all e member with job | ⟨address, greeting⟩
      · exact .inl job
      · exact .inr ⟨address, now, greeting⟩
    have told : repliesIn c'.effects = (d.serve (.opening msg.requestId)).replies := by
      rw [effects, repliesIn_append, repliesIn_opening _ _ _ quiet, at_.replied, at_.counted]
      rfl
    exact .inr ⟨.opening msg.requestId, rfl, dead, told ▸ d.serve_grows _,
      told ▸ List.prefix_refl _⟩
  | @opened msg template now _ _ snph job info built state effects =>
    have quiet : repliesIn ([.wire (.newExtendedMiningJob job), .wire (.setNewPrevHash snph)] ++
        if dbTx then [.connected (openedChannel X c.state msg template).minerAddress now]
        else []) = [] := by cases dbTx <;> rfl
    left
    constructor
    · change c'.state.nextChannelId = UInt32.ofNat (d.opened + 1)
      rw [state, UInt32.ofNat_add, ← at_.counted]
      rfl
    · intro id
      rw [state, setCurrentJob_isSome]
      exact opened_channels at_ msg template id
    · rw [effects, repliesIn_append, List.cons_append, repliesIn_opening _ _ _ quiet, at_.replied,
        at_.counted]
      rfl
  | @submitted share _ _ _ _ added state effects expected whole =>
    have due : (d.serve (.share share.channelId share.sequenceNumber)).replies =
        repliesIn c.effects ++ repliesIn (shareEffects X c.state share dbTx) :=
      share_replies at_ blocks share
    cases live : c'.live with
    | true =>
      left
      constructor
      · rw [state]
        exact at_.counted.trans (congrArg UInt32.ofNat (d.serve_share_opened _ _).symm)
      · intro id
        rw [state, at_.channels, ← d.serve_share_opened share.channelId share.sequenceNumber]
        rfl
      · rw [effects, whole live, repliesIn_append]
        exact due.symm
    | false =>
      refine .inr ⟨.share share.channelId share.sequenceNumber, rfl, live, ?_, ?_⟩
      · rw [effects, repliesIn_append, at_.replied]
        exact List.prefix_append _ _
      · rw [due, effects, repliesIn_append]
        exact (List.prefix_append_right_inj _).mpr (repliesIn_mono expected)
  | @unhandled received template now socket _ state effects notOpen notShare =>
    have none : (Input.frame received template now socket).request? = none := by
      cases received with
      | openExtendedMiningChannel payload =>
        cases payload with
        | none => rfl
        | some msg => exact absurd rfl (notOpen msg)
      | submitSharesExtended payload =>
        cases payload with
        | none => rfl
        | some share => exact absurd rfl (notShare share)
      | _ => rfl
    rw [none]
    exact .inl ⟨state ▸ at_.counted, state ▸ at_.channels, effects ▸ at_.replied⟩
  | broadcast added _ state effects all _ =>
    left
    constructor
    · exact state.nextChannelId.trans at_.counted
    · intro id
      rw [Input.request?, Option.toList_none, List.foldl_nil, ← at_.channels]
      rcases state.channel id with same | ⟨ch, info, found, _, replaced⟩
      · rw [same]
      · rw [replaced, found]
        rfl
    · rw [effects, repliesIn_append, repliesIn_quiet fun e member => .inl (all e member),
        List.append_nil]
      exact at_.replied

/-! ### A connection of the pool -/

/-- The request in an action, if it is one of connection `c`. -/
def Action.request? (c : Nat) : Action → Option Request
  | .frame c' received _ _ => if c' = c then received.request? else none
  | _ => none

/-- The requests of connection `c`, in order. -/
def Pool.requestsOf (c : Nat) (actions : List Action) : List Request :=
  actions.filterMap (Action.request? c)

/-- The replies that left the connection. -/
def PoolConnection.replied (pc : PoolConnection) : List Reply :=
  repliesIn (pc.conn.effects.take pc.performed)

/-- The desk has served all requests as the connection has, but for the last, if its reply could
not be written. -/
def Connection.Conversed (c : Connection) (requests : List Request) : Prop :=
  c.At (Desk.after requests) ∨ ∃ earlier last, requests = earlier ++ [last] ∧
    c.Broken (Desk.after earlier) (Desk.after requests)

structure Pool.Conversed (p : Pool) (past : List Action) : Prop where
  present : ∀ (c : Nat) pc, p.connections[c]? = some pc → pc.conn.Conversed (requestsOf c past)
  absent : ∀ c, p.connections[c]? = none → requestsOf c past = []

variable {pool : String} {p p' p₀ : Pool} {a : Action} {actions past : List Action}
  {block : BlockTemplate}

private theorem requestsOf_snoc (c : Nat) (past : List Action) (a : Action) :
    Pool.requestsOf c (past ++ [a]) = Pool.requestsOf c past ++ (a.request? c).toList := by
  rw [Pool.requestsOf, List.filterMap_append]
  cases asked : a.request? c <;> simp [Pool.requestsOf, asked]

private theorem inputFor_request (template : RawTemplate) (c : Nat) (a : Action) :
    (a.inputFor template c).bind Input.request? = a.request? c := by
  cases a with
  | frame c' received now socket =>
    rw [Action.inputFor, Action.request?]
    split <;> rfl
  | changed c' order socket =>
    simp only [Action.inputFor, Action.request?]
    split <;> rfl
  | _ => rfl

/-- The templates of the pool were built from the blocks of its clients. -/
private theorem fromBlocks (started : Pool.start block = .ok p₀)
    (ran : Pool.run X pool p₀ actions = some p) {c : Nat} {pc : PoolConnection}
    (found : p.connections[c]? = some pc) : pc.conn.FromBlocks := by
  intro id ch job open_ current
  obtain ⟨inputs, served⟩ := (Pool.run_serves started ran).present c pc found
  obtain ⟨j, member, sourced⟩ := Connection.run_jobs served.ran open_ current
  obtain ⟨k, at_k⟩ := List.mem_iff_getElem?.mp (served.published j member)
  obtain ⟨block, _, built⟩ := (Pool.run_published started ran).built k _ at_k
  exact ⟨j.template, ⟨k, _, _, _, built⟩, sourced⟩

/-- A connection that handles an input converses on. -/
private theorem conversed_handled {c c' : Connection} {i : Input} {requests : List Request}
    (holds : c.Conversed requests) (blocks : c.FromBlocks)
    (handled : c.step X true i = some c') : c'.Conversed (requests ++ i.request?.toList) := by
  rcases holds with at_ | ⟨earlier, last, rfl, broken⟩
  · rcases Connection.step_at at_ blocks handled with at_' | ⟨r, asked, broken⟩
    · left
      rw [Desk.after_append]
      exact at_'
    · right
      rw [asked, Option.toList_some]
      exact ⟨requests, r, rfl, by rwa [Desk.after_append]⟩
  · have live := Connection.step_live handled
    rw [broken.dead] at live
    cases live

theorem Pool.Stepped.conversed (stepped : Stepped X pool p a p')
    (blocks : ∀ (c : Nat) pc, p.connections[c]? = some pc → pc.conn.FromBlocks)
    (holds : p.Conversed past) : p'.Conversed (past ++ [a]) := by
  constructor
  case present =>
    intro c pc' found'
    rw [requestsOf_snoc, ← inputFor_request p.template]
    rcases stepped.connection found' with ⟨pc, found, touched⟩ | ⟨absent, rfl, rfl⟩
    · have before := holds.present c pc found
      cases touched with
      | kept quiet =>
        rw [quiet, Option.bind_none, Option.toList_none, List.append_nil]
        exact before
      | performed which =>
        subst which
        exact (List.append_nil (requestsOf c past)).symm ▸ before
      | handled input _ handled =>
        rw [input, Option.bind_some]
        exact conversed_handled before (blocks c pc found) handled
    · -- a connection that was just accepted
      rw [holds.absent c absent]
      exact .inl ⟨rfl, fun id => iff_of_false Bool.false_ne_true (Nat.not_lt_zero _), rfl⟩
  case absent =>
    intro c absent'
    have absent := stepped.absent absent'
    rw [requestsOf_snoc, ← inputFor_request p.template, stepped.inputFor_eq_none absent,
      holds.absent c absent]
    rfl

theorem Pool.run_conversed (started : Pool.start block = .ok p₀)
    (ran : Pool.run X pool p₀ actions = some p) : p.Conversed actions := by
  refine (Execution.run_history (fun past p => Pool.run X pool p₀ past = some p ∧
    p.Conversed past) ?_ ?_ ran).2
  · rintro past p a p' ⟨reached, holds⟩ stepped
    exact ⟨Execution.run_snoc reached stepped,
      (step_cases stepped).conversed (fun c pc => fromBlocks started reached) holds⟩
  · refine ⟨rfl, fun c pc found => ?_, fun c _ => rfl⟩
    rw [(start_connections started).1] at found
    cases found

theorem Connection.Conversed.due {c : Connection} {requests : List Request}
    (conversed : c.Conversed requests) : repliesIn c.effects <+: (Desk.after requests).replies := by
  rcases conversed with at_ | ⟨_, _, _, broken⟩
  · rw [at_.replied]
  · exact broken.due

/-- What left a connection is a beginning of what it is due. -/
theorem Pool.run_replied (started : Pool.start block = .ok p₀)
    (ran : Pool.run X pool p₀ actions = some p) {c : Nat} {pc : PoolConnection}
    (found : p.connections[c]? = some pc) :
    pc.replied <+: (Desk.after (requestsOf c actions)).replies := by
  have left : pc.replied <+: repliesIn pc.conn.effects := repliesIn_mono (List.take_prefix _ _)
  exact left.trans ((run_conversed started ran).present c pc found).due

private theorem replied_drained {pc : PoolConnection}
    (drained : pc.performed = pc.conn.effects.length) : pc.replied = repliesIn pc.conn.effects := by
  rw [PoolConnection.replied, drained, List.take_length]

/-- A connection that is served and has nothing left to send has replied to every request. -/
theorem Pool.run_replied_all (started : Pool.start block = .ok p₀)
    (ran : Pool.run X pool p₀ actions = some p) {c : Nat} {pc : PoolConnection}
    (found : p.connections[c]? = some pc) (drained : pc.performed = pc.conn.effects.length)
    (live : pc.conn.live = true) : pc.replied = (Desk.after (requestsOf c actions)).replies := by
  rcases (run_conversed started ran).present c pc found with at_ | ⟨_, _, _, broken⟩
  · rw [replied_drained drained, at_.replied]
  · rw [broken.dead] at live
    cases live

/-! ### Main result -/

/-- In every run, the replies that left a connection are the first of those of the desk. When
all its effects have left it, they are all those to the requests before the last; and while it
is served, to all requests. -/
theorem Pool.replies_in_order (started : Pool.start block = .ok p₀)
    (ran : Pool.run X pool p₀ actions = some p) {c : Nat} {pc : PoolConnection}
    (found : p.connections[c]? = some pc) :
    pc.replied <+: (Desk.after (requestsOf c actions)).replies ∧
    (pc.performed = pc.conn.effects.length →
      (∀ earlier last, requestsOf c actions = earlier ++ [last] →
        (Desk.after earlier).replies <+: pc.replied) ∧
      (pc.conn.live = true → pc.replied = (Desk.after (requestsOf c actions)).replies)) := by
  refine ⟨run_replied started ran found, fun drained =>
    ⟨fun earlier last eq => ?_, run_replied_all started ran found drained⟩⟩
  rw [replied_drained drained]
  rcases (run_conversed started ran).present c pc found with at_ | ⟨requests, r, asked, broken⟩
  · rw [at_.replied, eq]
    exact Desk.after_mono (List.prefix_append _ _)
  · rw [asked] at eq
    obtain rfl := List.append_inj_left' eq rfl
    exact broken.before

theorem replies_in_order_regtest : ∃ pc, (regtestAfter solveActions).connections[0]? = some pc ∧
    pc.replied = [.opened 1 0, .judged 0 0] ∧
    pc.replied <+: (Desk.after (Pool.requestsOf 0 solveActions)).replies := by
  have checks : ((regtestAfter solveActions).connections[0]?).any
      (fun pc => decide (pc.replied = [.opened 1 0, .judged 0 0])) = true := by decide +kernel
  obtain ⟨pc, found, replies⟩ := Execution.exists_of_any checks
  exact ⟨pc, found, replies, (Pool.replies_in_order regtestPool_started solveActions_ran found).1⟩

end MiningPool
