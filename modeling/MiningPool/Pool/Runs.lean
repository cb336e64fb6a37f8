import MiningPool.Pool.Model
import MiningPool.Stratum.Runs

/-!
# Runs of the pool

What one step of the pool can do, and what it leaves for every run: each connection runs
on its own, on published templates, and the `k`-th published template is the one of the
`k`-th block client.
-/

namespace MiningPool

open Bitcoin

variable {X : Externals} {pool : String} {p p' : Pool} {a : Action}

/-! ### Steps -/

/-- What an effect tells the database. -/
def Effect.dbEvent? : Effect → Option DbEvent
  | .credit event _ => some (.share event)
  | .connected address timestamp => some (.minerConnected address timestamp)
  | _ => none

/-- The action is a request of the IPC loop that fails. -/
def Pool.loopFails (p : Pool) : Action → Bool
  | .newThread ok => !ok
  | .waitNextFails => true
  | .fetch ok => !ok || p.clients.getLast?.all fun block =>
      !(buildRawTemplate p.templateId block.header block.coinbase block.merklePath).isOk
  | _ => false

/-- Every way to step from `p` with an action to another state. -/
inductive Pool.Stepped (X : Externals) (pool : String) (p : Pool) : Action → Pool → Prop
  | accept : Stepped X pool p .accept
      { p with connections := p.connections ++ [⟨Connection.new pool, 0, 1, false⟩] }
  | frame {c frame now socket pc conn} (found : p.connections[c]? = some pc) (idle : pc.Idle)
      (stepped : pc.conn.step X true (.frame frame p.template now socket) = some conn) :
      Stepped X pool p (.frame c frame now socket) (p.setConnection c { pc with conn })
  | changed {c order socket pc conn} (found : p.connections[c]? = some pc) (idle : pc.Idle)
      (stepped : pc.conn.step X true (.templateChanged p.template order socket) = some conn) :
      Stepped X pool p (.changed c order socket)
        (p.setConnection c { pc with conn, seen := p.published.length })
  /-- A solution enters the queue. -/
  | sent {c pc data header} (found : p.connections[c]? = some pc)
      (next : pc.next = some (.solution data header)) (alive : p.phase ≠ .stopped)
      (room : p.queue.length < solutionCapacity) :
      Stepped X pool p (.perform c)
        { p.setConnection c { pc with performed := pc.performed + 1 } with
          queue := p.queue ++ [⟨c, pc.performed, data, header⟩] }
  /-- A solution is sent to a loop that has returned. -/
  | lost {c pc data header} (found : p.connections[c]? = some pc)
      (next : pc.next = some (.solution data header)) (stopped : p.phase = .stopped) :
      Stepped X pool p (.perform c)
        (p.setConnection c { pc with performed := pc.performed + 1 })
  | performed {c pc e} (found : p.connections[c]? = some pc) (next : pc.next = some e)
      (other : ∀ data header, e ≠ .solution data header) :
      Stepped X pool p (.perform c)
        { p.setConnection c { pc with performed := pc.performed + 1 } with
          events := p.events ++ e.dbEvent?.toList }
  | hangUp {c pc} (found : p.connections[c]? = some pc) :
      Stepped X pool p (.hangUp c) (p.setConnection c { pc with closed := true })
  | ready (phase : p.phase = .newThread) :
      Stepped X pool p (.newThread true) { p with phase := .select }
  | timedOut (phase : p.phase = .select) :
      Stepped X pool p .waitNextTimesOut { p with phase := .newThread }
  | stops {failing : Action} (fails : p.loopFails failing) : Stepped X pool p failing p.stop
  | waited {block} (phase : p.phase = .select) :
      Stepped X pool p (.waitNext block)
        { p with phase := .fetch, clients := p.clients ++ [block] }
  | fetched {block raw} (phase : p.phase = .fetch) (last : p.clients.getLast? = some block)
      (built : buildRawTemplate p.templateId block.header block.coinbase block.merklePath =
        .ok raw) :
      Stepped X pool p (.fetch true)
        { p with
          phase := .newThread
          templateId := p.templateId + 1
          published := p.published ++ [raw]
          template := raw }
  | received {solution queue} (phase : p.phase = .select) (first : p.queue = solution :: queue) :
      Stepped X pool p .recvSolution
        { p with
          phase := .newThread
          queue
          submitted := p.submitted ++ [⟨p.clients.length - 1, solution⟩] }

theorem Pool.step_cases (stepped : p.step X pool a = some p') : Stepped X pool p a p' := by
  cases a with
  | accept =>
    cases stepped
    exact .accept
  | frame c frame now socket =>
    simp only [step, Option.bind_eq_bind, Option.bind_eq_some_iff] at stepped
    obtain ⟨pc, found, stepped⟩ := stepped
    split at stepped
    next idle =>
      obtain ⟨conn, handled, rfl⟩ := Option.map_eq_some_iff.mp stepped
      exact .frame found idle handled
    · cases stepped
  | changed c order socket =>
    simp only [step, Option.bind_eq_bind, Option.bind_eq_some_iff] at stepped
    obtain ⟨pc, found, stepped⟩ := stepped
    split at stepped
    next idle =>
      obtain ⟨conn, handled, rfl⟩ := Option.map_eq_some_iff.mp stepped
      exact .changed found idle.1 handled
    · cases stepped
  | perform c =>
    simp only [step, Option.bind_eq_bind, Option.bind_eq_some_iff] at stepped
    obtain ⟨pc, found, e, next, stepped⟩ := stepped
    cases e with
    | wire m =>
      cases stepped
      -- a message on the wire is no event of the database
      have quiet : Stepped X pool p (.perform c) _ := .performed found next (by simp)
      simpa [Effect.dbEvent?, setConnection] using quiet
    | credit event header =>
      cases stepped
      exact .performed found next (by simp)
    | connected address timestamp =>
      cases stepped
      exact .performed found next (by simp)
    | solution data header =>
      -- a solution is lost, queued, or waits for room, which is no step
      simp only [performEffect] at stepped
      split at stepped
      next stopped =>
        cases stepped
        exact .lost found next stopped
      next alive =>
        split at stepped
        next room =>
          cases stepped
          exact .sent found next alive room
        · cases stepped
  | hangUp c =>
    simp only [step, Option.bind_eq_bind, Option.bind_eq_some_iff] at stepped
    obtain ⟨pc, found, stepped⟩ := stepped
    split at stepped
    · cases stepped
      exact .hangUp found
    · cases stepped
  | newThread ok =>
    simp only [step] at stepped
    split at stepped
    next phase =>
      -- without a thread the loop returns, like after every failure below
      cases ok <;> cases stepped
      · exact .stops rfl
      · exact .ready phase
    · cases stepped
  | waitNextFails =>
    simp only [step] at stepped
    split at stepped
    · cases stepped
      exact .stops rfl
    · cases stepped
  | waitNextTimesOut =>
    simp only [step] at stepped
    split at stepped
    next phase =>
      cases stepped
      exact .timedOut phase
    · cases stepped
  | waitNext block =>
    simp only [step] at stepped
    split at stepped
    next phase =>
      cases stepped
      exact .waited phase
    · cases stepped
  | fetch ok =>
    simp only [step] at stepped
    split at stepped
    next phase =>
      split at stepped
      · cases stepped
      next block last =>
        split at stepped
        next built =>
          cases stepped
          exact .fetched phase last built
        next failed =>
          cases stepped
          -- either the requests failed or the template could not be built
          refine .stops ?_
          rw [loopFails, last, Option.all_some]
          cases built : buildRawTemplate p.templateId block.header block.coinbase
            block.merklePath with
          | error e => exact Bool.or_true _
          | ok raw =>
            refine Bool.or_eq_true_iff.mpr (.inl ?_)
            exact (Bool.not_eq_true' _).mpr (Bool.eq_false_iff.mpr fun ok => failed raw ok built)
    · cases stepped
  | recvSolution =>
    simp only [step] at stepped
    split at stepped
    next phase =>
      split at stepped
      · cases stepped
      next first =>
        cases stepped
        exact .received phase first
    · cases stepped

/-! ### One connection -/

/-- The input that an action is for connection `c`. -/
def Action.inputFor (template : RawTemplate) (c : Nat) : Action → Option Input
  | .frame c' received now socket =>
    if c' = c then some (.frame received template now socket) else none
  | .changed c' order socket =>
    if c' = c then some (.templateChanged template order socket) else none
  | _ => none

/-- What a step of the pool does to connection `c`. -/
inductive Pool.Touched (X : Externals) (p : Pool) (a : Action) (c : Nat) (pc : PoolConnection) :
    PoolConnection → Prop
  | kept (quiet : a.inputFor p.template c = none) (closed : Bool) :
      Touched X p a c pc { pc with closed }
  | performed {e} (which : a = .perform c) (next : pc.next = some e) :
      Touched X p a c pc { pc with performed := pc.performed + 1 }
  | handled {i conn} (input : a.inputFor p.template c = some i) (idle : pc.Idle)
      (stepped : pc.conn.step X true i = some conn) (seen : Nat) :
      Touched X p a c pc { pc with conn, seen }

private theorem loopFails_inputFor {template : RawTemplate} {c : Nat} (fails : p.loopFails a) :
    a.inputFor template c = none := by
  cases a with
  | frame => cases fails
  | changed => cases fails
  | _ => rfl

theorem getElem?_set_cases {α : Type} {pcs : List α} {c c' : Nat} {pc new pc' : α}
    (found : pcs[c]? = some pc)
    (found' : (pcs.set c new)[c']? = some pc') :
    c = c' ∧ pcs[c']? = some pc ∧ pc' = new ∨ c ≠ c' ∧ pcs[c']? = some pc' := by
  rw [List.getElem?_set] at found'
  split at found'
  next same =>
    have inside := (List.getElem?_eq_some_iff.mp found).1
    rw [if_pos inside] at found'
    exact .inl ⟨same, same ▸ found, (Option.some.inj found').symm⟩
  next other => exact .inr ⟨other, found'⟩

/-- A sum of which one summand changes. -/
theorem sum_set {counts : List Nat} {c m : Nat} (found : counts[c]? = some m) (n : Nat) :
    (counts.set c n).sum + m = counts.sum + n := by
  induction counts generalizing c with
  | nil => cases found
  | cons count counts ih =>
    cases c with
    | zero =>
      obtain rfl : count = m := by simpa using found
      simp only [List.set_cons_zero, List.sum_cons]
      omega
    | succ c =>
      have rest := ih (by simpa using found)
      simp only [List.set_cons_succ, List.sum_cons]
      omega

/-- A connection after a step is one from before, touched, or was just accepted. -/
theorem Pool.Stepped.connection (stepped : Stepped X pool p a p') {c : Nat} {pc' : PoolConnection}
    (found' : p'.connections[c]? = some pc') :
    (∃ pc, p.connections[c]? = some pc ∧ Touched X p a c pc pc') ∨
      p.connections[c]? = none ∧ a = .accept ∧ pc' = ⟨Connection.new pool, 0, 1, false⟩ := by
  -- a step that is for another connection, or for none, leaves this one alone
  have kept (quiet : a.inputFor p.template c = none) (same : p.connections[c]? = some pc') :
      (∃ pc, p.connections[c]? = some pc ∧ Touched X p a c pc pc') ∨
        p.connections[c]? = none ∧ a = .accept ∧ pc' = ⟨Connection.new pool, 0, 1, false⟩ :=
    .inl ⟨pc', same, .kept quiet pc'.closed⟩
  -- the three ways in which an effect can leave differ in the rest of the pool only
  have performed {c₀ : Nat} {pc : PoolConnection} {e : Effect} (eq : a = .perform c₀)
      (found : p.connections[c₀]? = some pc) (next : pc.next = some e)
      (found' : (p.connections.set c₀ { pc with performed := pc.performed + 1 })[c]? = some pc') :
      (∃ pc, p.connections[c]? = some pc ∧ Touched X p a c pc pc') ∨
        p.connections[c]? = none ∧ a = .accept ∧ pc' = ⟨Connection.new pool, 0, 1, false⟩ := by
    subst eq
    rcases getElem?_set_cases found found' with ⟨rfl, found, rfl⟩ | ⟨_, same⟩
    · exact .inl ⟨pc, found, .performed rfl next⟩
    · exact kept rfl same
  cases stepped with
  | accept =>
    simp only [List.getElem?_append] at found'
    split at found'
    · exact kept rfl found'
    next outside =>
      right
      refine ⟨List.getElem?_eq_none (Nat.not_lt.mp outside), rfl, ?_⟩
      exact List.mem_singleton.mp (List.mem_of_getElem? found')
  | frame found idle handled =>
    rcases getElem?_set_cases found found' with ⟨same, found, rfl⟩ | ⟨other, found'⟩
    · exact .inl ⟨_, found, .handled (by exact if_pos same) idle handled _⟩
    · exact kept (if_neg other) found'
  | changed found idle handled =>
    rcases getElem?_set_cases found found' with ⟨same, found, rfl⟩ | ⟨other, found'⟩
    · exact .inl ⟨_, found, .handled (by exact if_pos same) idle handled _⟩
    · exact kept (if_neg other) found'
  | sent found next => exact performed rfl found next found'
  | lost found next => exact performed rfl found next found'
  | performed found next => exact performed rfl found next found'
  | hangUp found =>
    rcases getElem?_set_cases found found' with ⟨_, found, rfl⟩ | ⟨_, found'⟩
    · exact .inl ⟨_, found, .kept rfl true⟩
    · exact kept rfl found'
  | ready => exact kept rfl found'
  | timedOut => exact kept rfl found'
  | stops fails => exact kept (loopFails_inputFor fails) found'
  | waited => exact kept rfl found'
  | fetched => exact kept rfl found'
  | received => exact kept rfl found'

/-- Connections are never removed. -/
theorem Pool.Stepped.stays (stepped : Stepped X pool p a p') {c : Nat} {pc : PoolConnection}
    (found : p.connections[c]? = some pc) :
    ∃ pc', p'.connections[c]? = some pc' ∧ Touched X p a c pc pc' := by
  have longer : p.connections.length ≤ p'.connections.length := by
    cases stepped with
    | accept => simp
    | stops => exact le_rfl
    | _ => simp [setConnection]
  -- the index stays valid, and what is there now was there before
  have inside := (List.getElem?_eq_some_iff.mp found).1
  have found' := List.getElem?_eq_getElem (Nat.lt_of_lt_of_le inside longer)
  rcases stepped.connection found' with ⟨_, same, touched⟩ | ⟨none, _⟩
  · rw [found, Option.some.injEq] at same
    subst same
    exact ⟨_, found', touched⟩
  · rw [found] at none
    cases none

/-- What is not there after a step was not there before. -/
theorem Pool.Stepped.absent (stepped : Stepped X pool p a p') {c : Nat}
    (absent' : p'.connections[c]? = none) : p.connections[c]? = none := by
  cases found : p.connections[c]? with
  | none => rfl
  | some pc =>
    obtain ⟨_, found', _⟩ := stepped.stays found
    rw [found'] at absent'
    cases absent'

/-- The effects of a touched connection are those from before and maybe more. -/
theorem Pool.Touched.effects {c : Nat} {pc pc' : PoolConnection}
    (touched : Touched X p a c pc pc') :
    ∃ added, pc'.conn.effects = pc.conn.effects ++ added := by
  cases touched with
  | kept => exact ⟨[], (List.append_nil _).symm⟩
  | performed => exact ⟨[], (List.append_nil _).symm⟩
  | handled _ _ stepped => exact (Connection.step_cases stepped).effects

theorem Pool.Touched.performed_mono {c : Nat} {pc pc' : PoolConnection}
    (touched : Touched X p a c pc pc') : pc.performed ≤ pc'.performed := by
  cases touched with
  | performed => exact Nat.le_succ _
  | _ => exact le_rfl

/-- Effects that have left a connection are among its effects. -/
theorem Pool.Touched.performed_le {c : Nat} {pc pc' : PoolConnection}
    (touched : Touched X p a c pc pc') (holds : pc.performed ≤ pc.conn.effects.length) :
    pc'.performed ≤ pc'.conn.effects.length := by
  cases touched with
  | kept => exact holds
  | performed _ next => exact (List.getElem?_eq_some_iff.mp next).1
  | handled _ _ stepped =>
    obtain ⟨added, effects⟩ := (Connection.step_cases stepped).effects
    simp only [effects, List.length_append]
    omega

/-- The open request for connection `c` that an action is, if it is one. -/
def Action.opens (c : Nat) : Action → Option OpenExtendedMiningChannel
  | .frame c' (.openExtendedMiningChannel payload) _ _ => if c' = c then payload else none
  | _ => none

/-- The open requests for connection `c` among some actions, in order. -/
def Pool.opensOf (c : Nat) (actions : List Action) : List OpenExtendedMiningChannel :=
  actions.filterMap (Action.opens c)

private theorem inputFor_opens (template : RawTemplate) (c : Nat) (a : Action) :
    (a.inputFor template c).bind Input.opens = a.opens c := by
  cases a with
  | frame c' received now socket =>
    by_cases same : c' = c
    · rw [Action.inputFor, if_pos same, Option.bind_some]
      cases received with
      | openExtendedMiningChannel payload => exact (if_pos same).symm
      | _ => rfl
    · rw [Action.inputFor, if_neg same, Option.bind_none]
      cases received with
      | openExtendedMiningChannel payload => exact (if_neg same).symm
      | _ => rfl
  | changed c' order socket =>
    simp only [Action.inputFor, Action.opens]
    split <;> rfl
  | _ => rfl

private theorem inputFor_template {template : RawTemplate} {c : Nat} {a : Action} {i : Input}
    (input : a.inputFor template c = some i) : i.template = template := by
  cases a with
  | frame c' received now socket =>
    obtain ⟨_, eq⟩ := Option.ite_none_right_eq_some.mp input
    cases eq
    rfl
  | changed c' order socket =>
    obtain ⟨_, eq⟩ := Option.ite_none_right_eq_some.mp input
    cases eq
    rfl
  | _ => cases input

theorem Action.eq_of_inputFor_frame {template template' : RawTemplate} {c : Nat} {a : Action}
    {received : Frame} {now : Int} {socket : List Bool}
    (input : a.inputFor template c = some (.frame received template' now socket)) :
    a = .frame c received now socket := by
  cases a with
  | frame c' received' now' socket' =>
    obtain ⟨same, eq⟩ := Option.ite_none_right_eq_some.mp input
    cases eq
    rw [same]
  | changed c' order socket' =>
    obtain ⟨_, eq⟩ := Option.ite_none_right_eq_some.mp input
    cases eq
  | _ => cases input

/-- Inputs are for connections that are there. -/
theorem Pool.Stepped.inputFor_eq_none (stepped : Stepped X pool p a p') {c : Nat}
    (absent : p.connections[c]? = none) : a.inputFor p.template c = none := by
  cases stepped with
  | frame found =>
    refine if_neg fun same => ?_
    rw [same, absent] at found
    cases found
  | changed found =>
    refine if_neg fun same => ?_
    rw [same, absent] at found
    cases found
  | stops fails => exact loopFails_inputFor fails
  | _ => rfl

/-- The connection that an action is for. -/
def Action.connection? : Action → Option Nat
  | .frame c .. => some c
  | .changed c .. => some c
  | .perform c => some c
  | .hangUp c => some c
  | _ => none

/-- The actions of a run that are for connection `c`. -/
def Pool.actionsOf (c : Nat) (actions : List Action) : List Action :=
  actions.filter (·.connection? = some c)

theorem Pool.actionsOf_append (c : Nat) (past actions : List Action) :
    actionsOf c (past ++ actions) = actionsOf c past ++ actionsOf c actions :=
  List.filter_append ..

/-- The solution is from connection `c`. -/
def Solution.isFrom (c : Nat) (s : Solution) : Bool := s.connection = c

/-! ### Whole runs -/

/-- The `k`-th published template is the one of the `k`-th block client. -/
structure Pool.Published (p : Pool) : Prop where
  count : p.published.length = p.templateId
  waiting : p.phase = .newThread ∨ p.phase = .select → p.clients.length = p.templateId
  fetching : p.phase = .fetch → p.clients.length = p.templateId + 1
  current : p.template ∈ p.published
  built : ∀ (k : Nat) raw, p.published[k]? = some raw → ∃ block, p.clients[k]? = some block ∧
    buildRawTemplate k block.header block.coinbase block.merklePath = .ok raw

theorem getElem?_prefix {α : Type} {xs ys : List α} {k : Nat} {x : α}
    (found : xs[k]? = some x) : (xs ++ ys)[k]? = some x := by
  rw [List.getElem?_append_left (List.getElem?_eq_some_iff.mp found).1, found]

theorem Pool.Stepped.published (stepped : Stepped X pool p a p') (holds : p.Published) :
    p'.Published := by
  cases stepped with
  | ready phase =>
    exact ⟨holds.count, fun _ => holds.waiting (.inl phase), nofun, holds.current, holds.built⟩
  | timedOut phase =>
    exact ⟨holds.count, fun _ => holds.waiting (.inr phase), nofun, holds.current, holds.built⟩
  | received phase =>
    exact ⟨holds.count, fun _ => holds.waiting (.inr phase), nofun, holds.current, holds.built⟩
  | stops => exact ⟨holds.count, nofun, nofun, holds.current, holds.built⟩
  | waited phase =>
    refine ⟨holds.count, nofun, fun _ => ?_, holds.current, ?_⟩
    · rw [List.length_append, List.length_singleton, holds.waiting (.inr phase)]
    · intro k raw at_k
      obtain ⟨block, client, built⟩ := holds.built k raw at_k
      exact ⟨block, getElem?_prefix client, built⟩
  -- the new template is the one of the last client, whose index is the count before
  | @fetched block raw phase last built =>
    have clients := holds.fetching phase
    refine ⟨?_, fun _ => clients, nofun, List.mem_append_right _ List.mem_cons_self, ?_⟩
    · rw [List.length_append, List.length_singleton, holds.count]
    · intro k raw' at_k
      rw [List.getElem?_append] at at_k
      -- an older template, or the one that was added
      split at at_k
      · exact holds.built k raw' at_k
      next outside =>
        obtain ⟨zero, rfl⟩ : k - p.published.length = 0 ∧ raw = raw' := by
          rw [List.getElem?_singleton] at at_k
          split at at_k
          next zero => exact ⟨zero, Option.some.inj at_k⟩
          · cases at_k
        have same : k = p.templateId := by
          have := holds.count
          omega
        rw [List.getLast?_eq_getElem?, clients, Nat.add_sub_cancel] at last
        exact ⟨block, same ▸ last, same ▸ built⟩
  | _ => exact ⟨holds.count, holds.waiting, holds.fetching, holds.current, holds.built⟩

theorem Pool.Stepped.published_grows (stepped : Stepped X pool p a p') :
    p.published <+: p'.published := by
  cases stepped with
  | fetched => exact List.prefix_append _ _
  | _ => exact List.prefix_refl _

theorem Pool.start_published {block : BlockTemplate} (started : Pool.start block = .ok p) :
    p.Published := by
  simp only [start, bind_eq_ok] at started
  obtain ⟨first, built, eq⟩ := started
  cases eq
  refine ⟨rfl, fun _ => rfl, nofun, List.mem_singleton_self _, ?_⟩
  intro k raw at_k
  rw [List.getElem?_singleton] at at_k
  split at at_k
  next zero =>
    cases at_k
    exact ⟨block, by rw [zero]; rfl, zero ▸ built⟩
  · cases at_k

theorem Pool.run_published {block : BlockTemplate} {actions : List Action} {p₀ : Pool}
    (started : Pool.start block = .ok p₀) (ran : Pool.run X pool p₀ actions = some p) :
    p.Published :=
  Execution.run_invariant Pool.Published (fun _ _ _ holds stepped =>
    (step_cases stepped).published holds) (start_published started) ran

/-- Connection `c` ran on its own, on templates that were published. -/
structure PoolConnection.Served (X : Externals) (pool : String) (past : List Action) (p : Pool)
    (c : Nat) (pc : PoolConnection) (inputs : List Input) : Prop where
  ran : Connection.run X true (Connection.new pool) inputs = some pc.conn
  published : ∀ i ∈ inputs, i.template ∈ p.published
  opens : MiningPool.opensOf inputs = Pool.opensOf c past
  performed : pc.performed ≤ pc.conn.effects.length

/-- Every connection did, and the others have no requests yet. -/
structure Pool.Serves (X : Externals) (pool : String) (past : List Action) (p : Pool) : Prop where
  present : ∀ c (pc : PoolConnection), p.connections[c]? = some pc →
    ∃ inputs, pc.Served X pool past p c inputs
  absent : ∀ c, p.connections[c]? = none → Pool.opensOf c past = []

private theorem poolOpens_append (c : Nat) (past : List Action) (a : Action) :
    Pool.opensOf c (past ++ [a]) = Pool.opensOf c past ++ (a.opens c).toList := by
  rw [Pool.opensOf, List.filterMap_append]
  cases opens : a.opens c <;> simp [Pool.opensOf, opens]

theorem Pool.Stepped.serves (stepped : Stepped X pool p a p') {past : List Action}
    (current : p.template ∈ p.published) (holds : p.Serves X pool past) :
    p'.Serves X pool (past ++ [a]) := by
  have later {raw : RawTemplate} (member : raw ∈ p.published) : raw ∈ p'.published :=
    stepped.published_grows.subset member
  have silent {c : Nat} (quiet : a.inputFor p.template c = none) :
      Pool.opensOf c (past ++ [a]) = Pool.opensOf c past := by
    rw [poolOpens_append, ← inputFor_opens p.template, quiet]
    exact List.append_nil _
  constructor
  case present =>
    intro c pc' found'
    rcases stepped.connection found' with ⟨pc, found, touched⟩ | ⟨absent, rfl, rfl⟩
    · obtain ⟨inputs, served⟩ := holds.present c pc found
      have performed := touched.performed_le served.performed
      cases touched with
      | kept quiet =>
        exact ⟨inputs, served.ran, fun i member => later (served.published i member),
          served.opens.trans (silent quiet).symm, performed⟩
      | performed which =>
        subst which
        exact ⟨inputs, served.ran, fun i member => later (served.published i member),
          served.opens.trans (silent rfl).symm, performed⟩
      -- the connection handles one more input, under the latest template
      | @handled i conn input _ handled =>
        refine ⟨inputs ++ [i], ?_, ?_, ?_, performed⟩
        · exact Execution.run_snoc served.ran handled
        · intro j member
          rcases List.mem_append.mp member with member | member
          · exact later (served.published j member)
          · obtain rfl := List.mem_singleton.mp member
            rw [inputFor_template input]
            exact later current
        · rw [MiningPool.opensOf_append, served.opens, poolOpens_append,
            ← inputFor_opens p.template, input, Option.bind_some]
    · -- a connection that was just accepted has had no input
      refine ⟨[], rfl, nofun, ?_, le_rfl⟩
      rw [silent rfl, holds.absent c absent]
      rfl
  case absent =>
    intro c absent'
    have absent := stepped.absent absent'
    rw [silent (stepped.inputFor_eq_none absent), holds.absent c absent]

theorem Pool.start_connections {block : BlockTemplate} (started : Pool.start block = .ok p) :
    p.connections = [] ∧ p.queue = [] ∧ p.submitted = [] := by
  simp only [start, bind_eq_ok] at started
  obtain ⟨first, _, eq⟩ := started
  cases eq
  exact ⟨rfl, rfl, rfl⟩

theorem Pool.run_serves {block : BlockTemplate} {actions : List Action} {p₀ : Pool}
    (started : Pool.start block = .ok p₀) (ran : Pool.run X pool p₀ actions = some p) :
    p.Serves X pool actions := by
  refine (Execution.run_history (fun past p => p.Published ∧ p.Serves X pool past) ?_ ?_ ran).2
  · -- that the latest template is published is needed for the inputs that come with it
    intro past p a p' holds stepped
    have cases_ := step_cases stepped
    exact ⟨cases_.published holds.1, cases_.serves holds.1.current holds.2⟩
  · have none := (start_connections started).1
    refine ⟨start_published started, fun c pc found => ?_, fun c _ => rfl⟩
    rw [none] at found
    cases found

/-- Where effect `n` of connection `c` comes from: the action `a` after `before`, which takes
the pool from `q` to `q'` and has the connection handle `i`. -/
structure Pool.Origin (X : Externals) (pool : String) (p₀ : Pool) (actions : List Action)
    (c n : Nat) (e : Effect) (before : List Action) (a : Action) (q q' : Pool)
    (pc pc' : PoolConnection) (i : Input) : Prop where
  split : ∃ after, actions = before ++ a :: after
  reached : Pool.run X pool p₀ before = some q
  stepped : Pool.step X pool q a = some q'
  found : q.connections[c]? = some pc
  found' : q'.connections[c]? = some pc'
  input : a.inputFor q.template c = some i
  handled : pc.conn.step X true i = some pc'.conn
  new : pc.conn.effects.length ≤ n
  effect : pc'.conn.effects[n]? = some e

theorem Pool.run_origin {block : BlockTemplate} {actions : List Action} {p₀ : Pool}
    (started : Pool.start block = .ok p₀) (ran : Pool.run X pool p₀ actions = some p)
    {c n : Nat} {pc : PoolConnection} {e : Effect} (found : p.connections[c]? = some pc)
    (effect : pc.conn.effects[n]? = some e) :
    ∃ before a q q' pc₀ pc' i, Origin X pool p₀ actions c n e before a q q' pc₀ pc' i := by
  -- the step at which the effect is there for the first time
  obtain ⟨before, a, after, q, q', split, reached, stepped, notYet, pc', found', effect'⟩ :=
    Execution.run_first (Q := fun p => ∃ pc : PoolConnection, p.connections[c]? = some pc ∧
      pc.conn.effects[n]? = some e) ran (fun ⟨pc, found, _⟩ => by
        rw [(start_connections started).1] at found
        cases found) ⟨pc, found, effect⟩
  rcases (step_cases stepped).connection found' with ⟨pc₀, found₀, touched⟩ | ⟨_, _, rfl⟩
  · cases touched with
    | kept => exact absurd ⟨pc₀, found₀, effect'⟩ notYet
    | performed => exact absurd ⟨pc₀, found₀, effect'⟩ notYet
    | @handled i conn input _ handled =>
      refine ⟨before, a, q, q', pc₀, _, i, ⟨⟨after, split⟩, reached, stepped, found₀, found', input,
        handled, ?_, effect'⟩⟩
      obtain ⟨added, effects⟩ := (Connection.step_cases handled).effects
      -- had it been among the earlier effects, it would not be new
      by_contra inside
      rw [effects, List.getElem?_append_left (Nat.not_le.mp inside)] at effect'
      exact notYet ⟨pc₀, found₀, effect'⟩
  · cases effect'

/-- What was published when an action was taken still is. -/
theorem Pool.published_subset {actions before after : List Action} {p₀ q : Pool}
    (split : actions = before ++ after) (ran : Pool.run X pool p₀ actions = some p)
    (reached : Pool.run X pool p₀ before = some q) : q.published ⊆ p.published := by
  rw [Pool.run] at ran reached
  rw [split, Execution.run_append, reached, Option.bind_some] at ran
  -- the run from `q` on only adds
  exact Execution.run_invariant (fun p => q.published ⊆ p.published)
    (fun _ _ _ holds stepped => List.Subset.trans holds
      (step_cases stepped).published_grows.subset) (List.Subset.refl _) ran

/-! ### A pool of the test network -/

/-- Connection 0 opens a channel and the answers are sent. -/
def openActions : List Action :=
  [.accept, .frame 0 (.openExtendedMiningChannel (some regtestOpen)) 1700000000 [],
    .perform 0, .perform 0, .perform 0, .perform 0]

/-- Then it submits a share that solves a block; the solution, the answer and the credit
are sent. -/
def solveActions : List Action :=
  openActions ++ [.frame 0 (.submitSharesExtended (some regtestShare)) 1700000010 [],
    .perform 0, .perform 0, .perform 0]

/-- The pool on the test network before anyone connects. -/
def regtestPool : Pool where
  phase := .newThread
  clients := [regtestBlock]
  templateId := 1
  published := [regtestTemplate]
  template := regtestTemplate
  queue := []
  submitted := []
  connections := []
  events := []

theorem regtestPool_started : Pool.start regtestBlock = .ok regtestPool := by rfl

/-- The pool after some actions, if they can be taken. -/
def regtestAfter (actions : List Action) : Pool :=
  (Pool.run regtestExternals regtestAddress regtestPool actions).getD regtestPool

theorem regtestAfter_ran {actions : List Action}
    (runs : (Pool.run regtestExternals regtestAddress regtestPool actions).isSome) :
    Pool.run regtestExternals regtestAddress regtestPool actions = some (regtestAfter actions) := by
  obtain ⟨p, ran⟩ := Option.isSome_iff_exists.mp runs
  rw [regtestAfter, ran, Option.getD_some]

theorem solveActions_ran : Pool.run regtestExternals regtestAddress regtestPool solveActions =
    some (regtestAfter solveActions) := regtestAfter_ran (by decide +kernel)

end MiningPool
