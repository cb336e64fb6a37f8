import MiningPool.Pool.Runs

/-!
# Connections on their own

What a connection sees of the pool: the templates, the IPC loop, its own state, and its own
solutions. The other connections share the queue and the database with it, but nothing that
they do changes what it sees, and nothing of what it sees is due to them.

## Main result

`Pool.isolated`: for every run there is one in which only this connection acts, and that looks
the same to it.
-/

namespace MiningPool

variable {X : Externals} {pool : String} {p p' q : Pool} {a : Action} {c : Nat}

/-! ### Views -/

/-- To connection `c` the pools look the same, and `q` has no solutions but its. -/
structure Pool.SameFor (c : Nat) (p q : Pool) : Prop where
  phase : q.phase = p.phase
  clients : q.clients = p.clients
  templateId : q.templateId = p.templateId
  published : q.published = p.published
  template : q.template = p.template
  count : q.connections.length = p.connections.length
  connection : q.connections[c]? = p.connections[c]?
  queue : q.queue = p.queue.filter (·.isFrom c)
  submitted : q.submitted = p.submitted.filter (·.solution.isFrom c)
  events : q.events.Sublist p.events

/-- What is left of an action without the other connections. When the loop receives a solution
of theirs, it is as if `wait_next` had timed out. -/
def Pool.soloAction (c : Nat) (p : Pool) : Action → List Action
  | .frame c' frame now socket => if c' = c then [.frame c frame now socket] else []
  | .changed c' order socket => if c' = c then [.changed c order socket] else []
  | .perform c' => if c' = c then [.perform c] else []
  | .hangUp c' => if c' = c then [.hangUp c] else []
  | .recvSolution =>
    if p.queue.head?.any (·.isFrom c) then [.recvSolution] else [.waitNextTimesOut]
  | a => [a]

/-- The run without them. -/
def Pool.solo (X : Externals) (pool : String) (c : Nat) (p : Pool) (actions : List Action) :
    List Action :=
  Execution.outputs (step X pool) (fun p a _ => p.soloAction c a) p actions

/-! ### Steps -/

namespace Pool.SameFor

/-- A step of another connection. -/
private theorem other {c' : Nat} {pc : PoolConnection} (same : SameFor c p q) (differs : c' ≠ c) :
    SameFor c (p.setConnection c' pc) q where
  phase := same.phase
  clients := same.clients
  templateId := same.templateId
  published := same.published
  template := same.template
  count := by rw [same.count, setConnection, List.length_set]
  connection := by rw [same.connection, setConnection, List.getElem?_set_ne differs]
  queue := same.queue
  submitted := same.submitted
  events := same.events

/-- The connection itself. -/
private theorem own {pc : PoolConnection} (same : SameFor c p q)
    (inside : c < p.connections.length) :
    SameFor c (p.setConnection c pc) (q.setConnection c pc) where
  phase := same.phase
  clients := same.clients
  templateId := same.templateId
  published := same.published
  template := same.template
  count := by simp [setConnection, same.count]
  connection := by
    have inside' := same.count ▸ inside
    rw [setConnection, setConnection, List.getElem?_set_self inside,
      List.getElem?_set_self inside']
  queue := same.queue
  submitted := same.submitted
  events := same.events

private theorem stop (same : SameFor c p q) : SameFor c p.stop q.stop :=
  { same with phase := rfl, queue := rfl }

private theorem inside {pc : PoolConnection} (found : p.connections[c]? = some pc) :
    c < p.connections.length := (List.getElem?_eq_some_iff.mp found).1

/-- An input for the connection. -/
theorem deliver {pc : PoolConnection} {i : Input} {seen : Nat} (same : SameFor c p q)
    (found : p.connections[c]? = some pc) (delivered : p.deliver X c pc i seen = some p') :
    ∃ q', q.deliver X c pc i seen = some q' ∧ SameFor c p' q' := by
  obtain ⟨conn, handled, rfl⟩ := Option.map_eq_some_iff.mp delivered
  refine ⟨_, ?_, same.own (inside found)⟩
  rw [Pool.deliver, handled, Option.map_some]

/-- An effect of the connection. Its queue is no longer than the pool's. -/
theorem performEffect {pc : PoolConnection} {e : Effect} (same : SameFor c p q)
    (found : p.connections[c]? = some pc) (performed : p.performEffect c pc e = some p') :
    ∃ q', q.performEffect c pc e = some q' ∧ SameFor c p' q' := by
  have moved : SameFor c (p.setConnection c { pc with performed := pc.performed + 1 })
      (q.setConnection c { pc with performed := pc.performed + 1 }) := same.own (inside found)
  cases e with
  | wire m =>
    cases performed
    exact ⟨_, rfl, moved⟩
  | credit event header =>
    cases performed
    exact ⟨_, rfl, { moved with events := same.events.append (List.Sublist.refl _) }⟩
  | connected address timestamp =>
    cases performed
    exact ⟨_, rfl, { moved with events := same.events.append (List.Sublist.refl _) }⟩
  | solution data header =>
    simp only [Pool.performEffect, same.phase] at performed ⊢
    split at performed
    next stopped =>
      cases performed
      exact ⟨_, if_pos stopped, moved⟩
    next alive =>
      obtain ⟨room, eq⟩ := Option.ite_none_right_eq_some.mp performed
      cases eq
      have room' : q.queue.length < solutionCapacity := by
        rw [same.queue]
        exact lt_of_le_of_lt (List.length_filter_le ..) room
      refine ⟨_, (if_neg alive).trans (if_pos room'), { moved with queue := ?_ }⟩
      simp [same.queue, Solution.isFrom]

end Pool.SameFor

/-- An effect of another connection. -/
private theorem Pool.performEffect_other {c' : Nat} {pc : PoolConnection} {e : Effect}
    (same : SameFor c p q) (differs : c' ≠ c)
    (performed : p.performEffect c' pc e = some p') : SameFor c p' q := by
  have moved : SameFor c (p.setConnection c' { pc with performed := pc.performed + 1 }) q :=
    same.other differs
  cases e with
  | wire m =>
    cases performed
    exact moved
  | credit event header =>
    cases performed
    exact { moved with events := same.events.trans (List.sublist_append_left ..) }
  | connected address timestamp =>
    cases performed
    exact { moved with events := same.events.trans (List.sublist_append_left ..) }
  | solution data header =>
    simp only [performEffect] at performed
    split at performed
    · cases performed
      exact moved
    · obtain ⟨_, eq⟩ := Option.ite_none_right_eq_some.mp performed
      cases eq
      refine { moved with queue := ?_ }
      simp [same.queue, Solution.isFrom, differs]

/-- A step of the loop that changes nothing that only some connections see. -/
private theorem run_one {q' : Pool} (stepped : q.step X pool a = some q') :
    Pool.run X pool q [a] = some q' := by
  rw [Pool.run, Execution.run_cons, stepped]
  rfl

theorem Pool.SameFor.step (same : SameFor c p q) (stepped : p.step X pool a = some p') :
    ∃ q', Pool.run X pool q (p.soloAction c a) = some q' ∧ SameFor c p' q' := by
  cases a with
  | accept =>
    cases stepped
    refine ⟨_, run_one rfl, { same with count := ?_, connection := ?_ }⟩
    · simp [same.count]
    · simp only [List.getElem?_append, same.count, same.connection]
  | frame c' frame now socket =>
    simp only [Pool.step, Option.bind_eq_bind, Option.bind_eq_some_iff] at stepped
    obtain ⟨pc, found, stepped⟩ := stepped
    obtain ⟨idle, delivered⟩ := Option.ite_none_right_eq_some.mp stepped
    by_cases own : c' = c
    · subst own
      obtain ⟨q', delivered', same'⟩ := same.deliver found delivered
      refine ⟨q', ?_, same'⟩
      rw [soloAction, if_pos rfl]
      apply run_one
      simp only [Pool.step, same.connection, found, Option.bind_eq_bind, Option.bind_some,
        if_pos idle, same.template, delivered']
    · obtain ⟨conn, _, rfl⟩ := Option.map_eq_some_iff.mp delivered
      exact ⟨q, by rw [soloAction, if_neg own]; rfl, same.other own⟩
  | changed c' order socket =>
    simp only [Pool.step, Option.bind_eq_bind, Option.bind_eq_some_iff] at stepped
    obtain ⟨pc, found, stepped⟩ := stepped
    obtain ⟨idle, delivered⟩ := Option.ite_none_right_eq_some.mp stepped
    by_cases own : c' = c
    · subst own
      obtain ⟨q', delivered', same'⟩ := same.deliver found delivered
      refine ⟨q', ?_, same'⟩
      rw [soloAction, if_pos rfl]
      apply run_one
      simp only [Pool.step, same.connection, found, Option.bind_eq_bind, Option.bind_some,
        same.template, same.published, if_pos idle, delivered']
    · obtain ⟨conn, _, rfl⟩ := Option.map_eq_some_iff.mp delivered
      exact ⟨q, by rw [soloAction, if_neg own]; rfl, same.other own⟩
  | perform c' =>
    simp only [Pool.step, Option.bind_eq_bind, Option.bind_eq_some_iff] at stepped
    obtain ⟨pc, found, e, next, performed⟩ := stepped
    by_cases own : c' = c
    · subst own
      obtain ⟨q', performed', same'⟩ := same.performEffect found performed
      refine ⟨q', ?_, same'⟩
      rw [soloAction, if_pos rfl]
      apply run_one
      simp only [Pool.step, same.connection, found, Option.bind_eq_bind, Option.bind_some, next,
        performed']
    · exact ⟨q, by rw [soloAction, if_neg own]; rfl, performEffect_other same own performed⟩
  | hangUp c' =>
    simp only [Pool.step, Option.bind_eq_bind, Option.bind_eq_some_iff] at stepped
    obtain ⟨pc, found, stepped⟩ := stepped
    obtain ⟨idle, eq⟩ := Option.ite_none_right_eq_some.mp stepped
    cases eq
    by_cases own : c' = c
    · subst own
      refine ⟨_, ?_, same.own (inside found)⟩
      rw [soloAction, if_pos rfl]
      apply run_one
      simp only [Pool.step, same.connection, found, Option.bind_eq_bind, Option.bind_some,
        if_pos idle]
    · exact ⟨q, by rw [soloAction, if_neg own]; rfl, same.other own⟩
  | newThread ok =>
    obtain ⟨phase, eq⟩ := Option.ite_none_right_eq_some.mp stepped
    have phase' := same.phase.trans phase
    cases eq
    cases ok with
    | false => exact ⟨_, run_one (if_pos phase'), same.stop⟩
    | true => exact ⟨_, run_one (if_pos phase'), { same with phase := rfl }⟩
  | waitNextFails =>
    obtain ⟨phase, eq⟩ := Option.ite_none_right_eq_some.mp stepped
    cases eq
    exact ⟨_, run_one (if_pos (same.phase.trans phase)), same.stop⟩
  | waitNextTimesOut =>
    obtain ⟨phase, eq⟩ := Option.ite_none_right_eq_some.mp stepped
    cases eq
    exact ⟨_, run_one (if_pos (same.phase.trans phase)), { same with phase := rfl }⟩
  | waitNext block =>
    obtain ⟨phase, eq⟩ := Option.ite_none_right_eq_some.mp stepped
    cases eq
    refine ⟨_, run_one (if_pos (same.phase.trans phase)),
      { same with phase := rfl, clients := ?_ }⟩
    rw [same.clients]
  | fetch ok =>
    simp only [Pool.step] at stepped
    obtain ⟨phase, stepped⟩ := Option.ite_none_right_eq_some.mp stepped
    have phase' := same.phase.trans phase
    cases last : p.clients.getLast? with
    | none => simp [last] at stepped
    | some block =>
      rw [last] at stepped
      simp only at stepped
      -- the same template is built, or the loop returns
      cases built : buildRawTemplate p.templateId block.header block.coinbase block.merklePath with
      | error e =>
        have eq : p' = p.stop := by
          cases ok <;> simpa [built, eq_comm] using stepped
        subst eq
        refine ⟨q.stop, run_one ?_, same.stop⟩
        cases ok <;> simp [Pool.step, phase', same.clients, same.templateId, last, built]
      | ok raw =>
        cases ok with
        | false =>
          cases stepped
          refine ⟨q.stop, run_one ?_, same.stop⟩
          simp [Pool.step, phase', same.clients, last]
        | true =>
          rw [built] at stepped
          cases stepped
          refine ⟨{ q with
            phase := .newThread
            templateId := q.templateId + 1
            published := q.published ++ [raw]
            template := raw }, run_one ?_, { same with
            phase := rfl
            templateId := congrArg (· + 1) same.templateId
            published := congrArg (· ++ [raw]) same.published
            template := rfl }⟩
          simp [Pool.step, phase', same.clients, same.templateId, last, built]
  | recvSolution =>
    simp only [Pool.step] at stepped
    obtain ⟨phase, stepped⟩ := Option.ite_none_right_eq_some.mp stepped
    have phase' := same.phase.trans phase
    cases first : p.queue with
    | nil => simp [first] at stepped
    | cons solution queue =>
      rw [first] at stepped
      cases stepped
      have queued := same.queue
      rw [first] at queued
      by_cases own : solution.isFrom c = true
      · rw [List.filter_cons_of_pos own] at queued
        refine ⟨{ q with
          phase := .newThread
          queue := queue.filter (·.isFrom c)
          submitted := q.submitted ++ [⟨q.clients.length - 1, solution⟩] }, ?_,
          { same with phase := rfl, queue := rfl, submitted := ?_ }⟩
        · rw [soloAction, first, List.head?_cons, Option.any_some, if_pos own]
          apply run_one
          simp [Pool.step, phase', queued]
        · simp [same.submitted, same.clients, own]
      · rw [List.filter_cons_of_neg own] at queued
        refine ⟨{ q with phase := .newThread }, ?_,
          { same with phase := rfl, queue := queued, submitted := ?_ }⟩
        · rw [soloAction, first, List.head?_cons, Option.any_some, if_neg own]
          exact run_one (if_pos phase')
        · simp [same.submitted, own]

private theorem soloAction_own (p : Pool) (own : a.connection? = some c) :
    p.soloAction c a = [a] := by
  cases a <;> cases own <;> exact if_pos rfl

/-- What the connection does itself. -/
theorem Pool.SameFor.forth (same : SameFor c p q) (own : a.connection? = some c)
    (stepped : p.step X pool a = some p') :
    ∃ q', q.step X pool a = some q' ∧ SameFor c p' q' := by
  obtain ⟨q', ran, same'⟩ := same.step stepped
  rw [soloAction_own p own, run, Execution.run_cons, Option.bind_eq_some_iff] at ran
  obtain ⟨q₁, stepped', eq⟩ := ran
  cases eq
  exact ⟨q', stepped', same'⟩

/-- The other direction, for what the connection can do itself. Only a full queue can make it
wait. -/
theorem Pool.SameFor.back (same : SameFor c p q) (own : a.connection? = some c)
    (room : a = .perform c → p.queue.length < solutionCapacity)
    (stepped : q.step X pool a = some p') : ∃ p₁, p.step X pool a = some p₁ ∧ SameFor c p₁ p' := by
  have taken : (p.step X pool a).isSome := by
    cases a with
    | frame c' frame now socket =>
      cases own
      simp only [Pool.step, Option.bind_eq_bind, Option.bind_eq_some_iff] at stepped
      obtain ⟨pc, found, stepped⟩ := stepped
      obtain ⟨idle, delivered⟩ := Option.ite_none_right_eq_some.mp stepped
      obtain ⟨conn, handled, _⟩ := Option.map_eq_some_iff.mp delivered
      rw [same.connection] at found
      rw [same.template] at handled
      simp [Pool.step, Pool.deliver, found, idle, handled]
    | changed c' order socket =>
      cases own
      simp only [Pool.step, Option.bind_eq_bind, Option.bind_eq_some_iff] at stepped
      obtain ⟨pc, found, stepped⟩ := stepped
      obtain ⟨idle, delivered⟩ := Option.ite_none_right_eq_some.mp stepped
      obtain ⟨conn, handled, _⟩ := Option.map_eq_some_iff.mp delivered
      rw [same.connection] at found
      rw [same.published] at idle
      rw [same.template] at handled
      simp [Pool.step, Pool.deliver, found, idle, handled]
    | perform c' =>
      cases own
      simp only [Pool.step, Option.bind_eq_bind, Option.bind_eq_some_iff] at stepped
      obtain ⟨pc, found, e, next, _⟩ := stepped
      rw [same.connection] at found
      simp only [Pool.step, found, next, Option.bind_eq_bind, Option.bind_some]
      cases e with
      | solution data header =>
        rw [Pool.performEffect]
        split
        · rfl
        · rw [if_pos (room rfl)]
          rfl
      | _ => rfl
    | hangUp c' =>
      cases own
      simp only [Pool.step, Option.bind_eq_bind, Option.bind_eq_some_iff] at stepped
      obtain ⟨pc, found, stepped⟩ := stepped
      obtain ⟨idle, _⟩ := Option.ite_none_right_eq_some.mp stepped
      rw [same.connection] at found
      simp [Pool.step, found, idle]
    | _ => cases own
  obtain ⟨p₁, stepped₁⟩ := Option.isSome_iff_exists.mp taken
  -- the other pool takes it as well, and ends where it was found to
  obtain ⟨q', stepped', same'⟩ := same.forth own stepped₁
  rw [stepped, Option.some.injEq] at stepped'
  exact ⟨p₁, stepped₁, stepped' ▸ same'⟩

/-! ### Runs -/

private theorem actionsOf_soloAction (p : Pool) (a : Action) :
    Pool.actionsOf c (p.soloAction c a) = Pool.actionsOf c [a] ∧
      ∀ b ∈ p.soloAction c a, b.connection? = none ∨ b.connection? = some c := by
  cases a with
  | recvSolution =>
    rw [Pool.soloAction]
    split <;> simp [Pool.actionsOf, Action.connection?]
  | frame c' =>
    rw [Pool.soloAction]
    split <;> simp_all [Pool.actionsOf, Action.connection?]
  | changed c' =>
    rw [Pool.soloAction]
    split <;> simp_all [Pool.actionsOf, Action.connection?]
  | perform c' =>
    rw [Pool.soloAction]
    split <;> simp_all [Pool.actionsOf, Action.connection?]
  | hangUp c' =>
    rw [Pool.soloAction]
    split <;> simp_all [Pool.actionsOf, Action.connection?]
  | _ => simp [Pool.soloAction, Action.connection?]

/-- The other connections are gone from the run, and `c` does in it what it did. -/
private theorem actionsOf_solo {p₀ : Pool} {actions : List Action}
    (ran : Pool.run X pool p₀ actions = some p) :
    Pool.actionsOf c (Pool.solo X pool c p₀ actions) = Pool.actionsOf c actions ∧
      ∀ b ∈ Pool.solo X pool c p₀ actions, b.connection? = none ∨ b.connection? = some c := by
  induction actions generalizing p₀ with
  | nil => simp [Pool.solo, Execution.outputs, Pool.actionsOf]
  | cons a actions ih =>
    rw [Pool.run, Execution.run_cons, Option.bind_eq_some_iff] at ran
    obtain ⟨p₁, stepped, ran⟩ := ran
    obtain ⟨first, own⟩ := actionsOf_soloAction (c := c) p₀ a
    obtain ⟨rest, others⟩ := ih ran
    have split : Pool.solo X pool c p₀ (a :: actions) =
        p₀.soloAction c a ++ Pool.solo X pool c p₁ actions := by
      rw [Pool.solo, Execution.outputs, stepped]
      rfl
    rw [split, Pool.actionsOf_append, first, rest, ← Pool.actionsOf_append]
    refine ⟨rfl, fun b member => ?_⟩
    rcases List.mem_append.mp member with member | member
    · exact own b member
    · exact others b member

/-- For every run there is one in which no other connection acts, `c` does what it did, and the
two end alike for `c`; and whatever `c` can do next in the one it can do in the other, to the
same effect, unless it has to wait for room in the queue. -/
theorem Pool.isolated {block : BlockTemplate} {p₀ : Pool} {actions : List Action}
    (started : Pool.start block = .ok p₀) (ran : Pool.run X pool p₀ actions = some p) (c : Nat) :
    ∃ solo q, Pool.run X pool p₀ solo = some q ∧ SameFor c p q ∧
      actionsOf c solo = actionsOf c actions ∧
      (∀ b ∈ solo, b.connection? = none ∨ b.connection? = some c) ∧
      ∀ a, a.connection? = some c →
        (∀ p', p.step X pool a = some p' →
          ∃ q', q.step X pool a = some q' ∧ SameFor c p' q') ∧
        ((a = .perform c → p.queue.length < solutionCapacity) →
          ∀ q', q.step X pool a = some q' →
            ∃ p', p.step X pool a = some p' ∧ SameFor c p' q') := by
  have keep (p : Pool) (a : Action) (p' q : Pool) (same : SameFor c p q)
      (stepped : p.step X pool a = some p') : ∃ q',
      Execution.run (step X pool) q (p.soloAction c a) = some q' ∧ SameFor c p' q' :=
    same.step stepped
  obtain ⟨_, queue, submitted⟩ := start_connections started
  have init : SameFor c p₀ p₀ := ⟨rfl, rfl, rfl, rfl, rfl, rfl, rfl, by simp [queue],
    by simp [submitted], List.Sublist.refl _⟩
  obtain ⟨q, ran', same⟩ :=
    Execution.run_translates (fun p a _ => p.soloAction c a) keep init ran
  obtain ⟨own, others⟩ := actionsOf_solo (c := c) ran
  refine ⟨_, q, ran', same, own, others, fun a acts => ⟨?_, ?_⟩⟩
  · intro p' stepped
    exact same.forth acts stepped
  · intro room q' stepped
    exact same.back acts room stepped

/-- Two connections open channels; the first one's solution is submitted, and then only the
second one's view is kept. -/
def sharedActions : List Action :=
  [.accept, .accept, .frame 1 (.openExtendedMiningChannel (some regtestOpen)) 1700000000 [],
    .perform 1, .frame 0 (.openExtendedMiningChannel (some regtestOpen)) 1700000000 [],
    .perform 0, .perform 0, .perform 0, .perform 0,
    .frame 0 (.submitSharesExtended (some regtestShare)) 1700000010 [], .perform 0,
    .newThread true, .recvSolution, .perform 1]

theorem isolated_regtest : ∃ p solo q,
    Pool.run regtestExternals regtestAddress regtestPool sharedActions = some p ∧
      p.submitted.length = 1 ∧
      Pool.run regtestExternals regtestAddress regtestPool solo = some q ∧
      Pool.SameFor 1 p q ∧ q.submitted = [] := by
  have runs : (Pool.run regtestExternals regtestAddress regtestPool sharedActions).any
      (fun p => decide (p.submitted.length = 1 ∧
        p.submitted.filter (·.solution.isFrom 1) = [])) = true := by
    decide +kernel
  obtain ⟨p, ran, count, others⟩ := Execution.exists_of_any runs
  obtain ⟨solo, q, ran', same, _⟩ := Pool.isolated regtestPool_started ran 1
  exact ⟨p, solo, q, ran, count, ran', same, same.submitted.trans others⟩

end MiningPool
