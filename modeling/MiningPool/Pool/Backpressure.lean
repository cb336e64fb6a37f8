import MiningPool.Pool.Delivery

/-!
# The solution channel

Every connection sends its solutions over one channel, which holds eight and makes a sender
wait for room. What arrives of a connection arrives in the order in which it was sent, and
no connection waits forever: whatever the state, the IPC loop can go on until every effect
of every connection has left.

## Main results

- `Pool.fifo`: the solutions of a connection, in and out of the queue, are those that left it,
  in order.
- `Pool.drains`: the queue and the connections can be emptied, and if the loop does not end
  on the way, every solution is submitted.
-/

namespace MiningPool

variable {X : Externals} {pool : String} {p p' p₀ : Pool} {a : Action} {actions : List Action}
  {block : BlockTemplate}

/-! ### Order -/

/-- The solutions among the effects of connection `c`, the first of which has index `n`. -/
def solutionsFrom (c n : Nat) : List Effect → List Solution
  | [] => []
  | .solution data header :: effects => ⟨c, n, data, header⟩ :: solutionsFrom c (n + 1) effects
  | _ :: effects => solutionsFrom c (n + 1) effects

/-- The solutions that left connection `c`, in order. -/
def PoolConnection.solutions (c : Nat) (pc : PoolConnection) : List Solution :=
  solutionsFrom c 0 (pc.conn.effects.take pc.performed)

theorem solutionsFrom_append (c n : Nat) (effects more : List Effect) :
    solutionsFrom c n (effects ++ more) =
      solutionsFrom c n effects ++ solutionsFrom c (n + effects.length) more := by
  induction effects generalizing n with
  | nil => simp [solutionsFrom]
  | cons e effects ih => cases e <;> simp [solutionsFrom, ih, Nat.add_assoc, Nat.add_comm 1]

/-- What the next effect adds. -/
theorem PoolConnection.solutions_perform {c : Nat} {pc : PoolConnection} {e : Effect}
    (next : pc.next = some e) :
    PoolConnection.solutions c { pc with performed := pc.performed + 1 } =
      pc.solutions c ++ solutionsFrom c pc.performed [e] := by
  have inside := (List.getElem?_eq_some_iff.mp next).1
  simp only [PoolConnection.next] at next
  simp only [solutions, List.take_add_one, next, Option.toList_some, solutionsFrom_append,
    List.length_take, Nat.min_eq_left inside.le, Nat.zero_add]

/-- A connection that handles input had sent all it had. -/
theorem PoolConnection.solutions_handled {c : Nat} {pc : PoolConnection} {dbTx : Bool} {i : Input}
    {conn : Connection} (idle : pc.Idle) (handled : pc.conn.step X dbTx i = some conn)
    (seen : Nat) : PoolConnection.solutions c { pc with conn, seen } = pc.solutions c := by
  obtain ⟨added, effects⟩ := (Connection.step_cases handled).effects
  simp only [solutions, effects, List.take_append_of_le_length idle.2.2.le]

theorem solutionsFrom_other {c n : Nat} {e : Effect}
    (other : ∀ data header, e ≠ .solution data header) : solutionsFrom c n [e] = [] := by
  cases e with
  | solution data header => exact absurd rfl (other data header)
  | _ => rfl

/-- The solutions of connection `c` in and out of the queue are the first ones that left it,
and as long as the loop runs all of them. -/
structure Pool.InOrder (p : Pool) (c : Nat) (pc : PoolConnection) : Prop where
  kept : p.sent.filter (·.isFrom c) <+: pc.solutions c
  all : p.phase ≠ .stopped → p.sent.filter (·.isFrom c) = pc.solutions c

theorem Pool.Stepped.stays_stopped (stepped : Stepped X pool p a p')
    (stopped : p.phase = .stopped) : p'.phase = .stopped := by
  cases stepped with
  | sent _ _ alive => exact absurd stopped alive
  | ready phase => simp [phase] at stopped
  | timedOut phase => simp [phase] at stopped
  | waited phase => simp [phase] at stopped
  | fetched phase => simp [phase] at stopped
  | received phase => simp [phase] at stopped
  | stops => rfl
  | _ => exact stopped

theorem Pool.Stepped.inOrder (stepped : Stepped X pool p a p') (traced : p.Traced)
    (holds : ∀ c pc, p.connections[c]? = some pc → p.InOrder c pc) {c : Nat}
    {pc' : PoolConnection} (found' : p'.connections[c]? = some pc') : p'.InOrder c pc' := by
  have quiet {pc : PoolConnection} (found : p.connections[c]? = some pc)
      (sent : p'.sent.filter (·.isFrom c) = p.sent.filter (·.isFrom c))
      (same : pc'.solutions c = pc.solutions c) : p'.InOrder c pc' := by
    have before := holds c pc found
    refine ⟨?_, fun alive => ?_⟩
    · rw [sent, same]
      exact before.kept
    · rw [sent, same]
      exact before.all fun stopped => alive (stepped.stays_stopped stopped)
  cases stepped with
  | accept =>
    simp only [List.getElem?_append] at found'
    split at found'
    · exact quiet found' rfl rfl
    next outside =>
      -- nothing is from a connection that was not there
      have none : p.sent.filter (·.isFrom c) = [] := by
        apply List.filter_eq_nil_iff.mpr
        intro s member own
        obtain ⟨pc, found, _⟩ := traced s member
        obtain rfl : s.connection = c := by simpa [Solution.isFrom] using own
        exact outside (List.getElem?_eq_some_iff.mp found).1
      obtain rfl := List.mem_singleton.mp (List.mem_of_getElem? found')
      exact ⟨none ▸ List.nil_prefix, fun _ => none⟩
  | frame found idle handled =>
    rcases getElem?_set_cases found found' with ⟨rfl, found, rfl⟩ | ⟨_, found'⟩
    · exact quiet found rfl (PoolConnection.solutions_handled idle handled _)
    · exact quiet found' rfl rfl
  | changed found idle handled =>
    rcases getElem?_set_cases found found' with ⟨rfl, found, rfl⟩ | ⟨_, found'⟩
    · exact quiet found rfl (PoolConnection.solutions_handled idle handled _)
    · exact quiet found' rfl rfl
  | @sent c₁ pc data header found next alive =>
    rcases getElem?_set_cases found found' with ⟨rfl, found, rfl⟩ | ⟨other, found'⟩
    · -- it comes after all that this connection sent before
      let solution : Solution := ⟨c₁, pc.performed, data, header⟩
      have all : (p.sent ++ [solution]).filter (·.isFrom c₁) =
          pc.solutions c₁ ++ solutionsFrom c₁ pc.performed [.solution data header] := by
        rw [List.filter_append, (holds c₁ pc found).all alive]
        simp [solutionsFrom, Solution.isFrom, solution]
      rw [← PoolConnection.solutions_perform next, Pool.sent, List.append_assoc] at all
      exact ⟨all ▸ List.prefix_refl _, fun _ => all⟩
    · apply quiet found' _ rfl
      simp [Pool.sent, setConnection, Solution.isFrom, other]
  | @lost c₁ pc data header found next stopped =>
    rcases getElem?_set_cases found found' with ⟨rfl, found, rfl⟩ | ⟨_, found'⟩
    · refine ⟨?_, fun alive => absurd stopped alive⟩
      rw [PoolConnection.solutions_perform next]
      exact (holds c₁ pc found).kept.trans (List.prefix_append _ _)
    · exact quiet found' rfl rfl
  | performed found next other =>
    rcases getElem?_set_cases found found' with ⟨rfl, found, rfl⟩ | ⟨_, found'⟩
    · apply quiet found rfl
      rw [PoolConnection.solutions_perform next, solutionsFrom_other other, List.append_nil]
    · exact quiet found' rfl rfl
  | hangUp found =>
    rcases getElem?_set_cases found found' with ⟨rfl, found, rfl⟩ | ⟨_, found'⟩
    · exact quiet found rfl rfl
    · exact quiet found' rfl rfl
  | stops =>
    -- what was in the queue is lost, and it is the end of what was sent
    refine ⟨?_, fun alive => absurd rfl alive⟩
    have part : p.stop.sent <+: p.sent := by simp [Pool.sent, stop]
    exact (part.filter _).trans (holds c pc' found').kept
  | received _ first =>
    apply quiet found' _ rfl
    simp [Pool.sent, first]
  | _ => exact quiet found' rfl rfl

theorem Pool.Stepped.bounded (stepped : Stepped X pool p a p')
    (holds : p.queue.length ≤ solutionCapacity) : p'.queue.length ≤ solutionCapacity := by
  cases stepped with
  | sent _ _ _ room =>
    rw [List.length_append, List.length_singleton]
    exact room
  | stops => exact Nat.zero_le _
  | received _ first =>
    rw [first, List.length_cons] at holds
    exact (Nat.le_succ _).trans holds
  | _ => exact holds

/-- The solutions of a connection arrive in the order in which they left it: those in and out
of the queue are the first ones that left, and while the loop runs they are all of them. -/
theorem Pool.run_inOrder (started : Pool.start block = .ok p₀)
    (ran : Pool.run X pool p₀ actions = some p) :
    p.queue.length ≤ solutionCapacity ∧
      ∀ c pc, p.connections[c]? = some pc → p.InOrder c pc := by
  obtain ⟨connections, queue, _⟩ := start_connections started
  refine (Execution.run_invariant (fun p => p.Traced ∧ p.queue.length ≤ solutionCapacity ∧
    ∀ c pc, p.connections[c]? = some pc → p.InOrder c pc) ?_ ?_ ran).2
  · rintro p a p' ⟨traced, bounded, holds⟩ stepped
    have cases_ := step_cases stepped
    exact ⟨cases_.traced traced, cases_.bounded bounded, fun c pc => cases_.inOrder traced holds⟩
  · refine ⟨start_traced started, by simp [queue], fun c pc found => ?_⟩
    simp [connections] at found

/-! ### Progress -/

/-- What needs no input and no new template, but only that the requests of the IPC loop go
through. -/
def Action.isProgress : Action → Bool
  | .perform _ => true
  | .newThread ok => ok
  | .fetch ok => ok
  | .recvSolution => true
  | _ => false

/-- `q` is `p` after some progress. -/
structure Pool.Advances (p q : Pool) : Prop where
  count : q.connections.length = p.connections.length
  connection : ∀ (c : Nat) (pc : PoolConnection), p.connections[c]? = some pc →
    ∃ performed, q.connections[c]? = some { pc with performed }
  fetching : q.phase = .fetch →
    p.phase = .fetch ∧ q.clients = p.clients ∧ q.templateId = p.templateId
  stopped : q.phase = .stopped → p.phase = .stopped ∨ p.phase = .fetch ∧ p.loopFails (.fetch true)

theorem Pool.Advances.refl (p : Pool) : p.Advances p :=
  ⟨rfl, fun _ pc found => ⟨pc.performed, found⟩, fun phase => ⟨phase, rfl, rfl⟩, .inl⟩

/-- An effect leaves connection `c₁`, and the IPC loop stays where it is. -/
private theorem Pool.Advances.perform {q q' : Pool} (holds : p.Advances q) {c₁ : Nat}
    {pc₁ : PoolConnection} (found : q.connections[c₁]? = some pc₁)
    (moved : q'.connections = q.connections.set c₁ { pc₁ with performed := pc₁.performed + 1 })
    (phase : q'.phase = q.phase) (clients : q'.clients = q.clients)
    (templateId : q'.templateId = q.templateId) : p.Advances q' where
  count := by rw [moved, List.length_set, holds.count]
  connection := by
    intro c pc before
    obtain ⟨performed, found'⟩ := holds.connection c pc before
    rw [moved, List.getElem?_set]
    by_cases same : c₁ = c
    · subst same
      rw [found, Option.some.injEq] at found'
      subst found'
      have inside := (List.getElem?_eq_some_iff.mp found).1
      exact ⟨performed + 1, by simp [inside]⟩
    · exact ⟨performed, by simp [same, found']⟩
  fetching := by
    rw [phase, clients, templateId]
    exact holds.fetching
  stopped := by
    rw [phase]
    exact holds.stopped

/-- A loop that makes progress ends only in `fetch_template`. -/
private theorem fetch_of_stops (stepped : p.step X pool a = some p') (fails : p.loopFails a)
    (progress : a.isProgress) : a = .fetch true ∧ p.phase = .fetch := by
  cases a with
  | newThread ok => simp_all [Action.isProgress, Pool.loopFails]
  | fetch ok =>
    obtain ⟨phase, _⟩ := Option.ite_none_right_eq_some.mp stepped
    obtain rfl : ok = true := progress
    exact ⟨rfl, phase⟩
  | _ => simp_all [Action.isProgress, Pool.loopFails]

theorem Pool.Advances.step {q q' : Pool} (holds : p.Advances q) (progress : a.isProgress)
    (stepped : q.step X pool a = some q') : p.Advances q' := by
  cases step_cases stepped with
  | sent found => exact holds.perform found rfl rfl rfl rfl
  | lost found => exact holds.perform found rfl rfl rfl rfl
  | performed found => exact holds.perform found rfl rfl rfl rfl
  | ready => exact ⟨holds.count, holds.connection, nofun, nofun⟩
  | fetched => exact ⟨holds.count, holds.connection, nofun, nofun⟩
  | received => exact ⟨holds.count, holds.connection, nofun, nofun⟩
  | stops fails =>
    refine ⟨holds.count, holds.connection, nofun, fun _ => .inr ?_⟩
    obtain ⟨rfl, phase⟩ := fetch_of_stops stepped fails progress
    -- it was at the same request all the time
    obtain ⟨before, clients, templateId⟩ := holds.fetching phase
    refine ⟨before, ?_⟩
    rwa [loopFails, clients, templateId] at fails
  | _ => cases progress

/-- A progress of the pool. -/
def Pool.Reaches (X : Externals) (pool : String) : Pool → Pool → Prop :=
  Execution.Reaches (Pool.step X pool) (·.isProgress)

theorem Pool.Reaches.advances {q : Pool} (reached : Reaches X pool p q) : p.Advances q :=
  Execution.Reaches.invariant p.Advances (fun _ _ _ holds progress stepped =>
    holds.step progress stepped) reached (.refl p)

variable (X pool) in
/-- From `select!` the loop takes a solution. -/
private theorem receives_select (phase : p.phase = .select) {s : Solution}
    {queue : List Solution} (first : p.queue = s :: queue) :
    ∃ q, p.Reaches X pool q ∧ q.connections = p.connections ∧ q.queue = queue := by
  have stepped : p.step X pool .recvSolution = some { p with
      phase := .newThread
      queue
      submitted := p.submitted ++ [⟨p.clients.length - 1, s⟩] } := by
    simp [Pool.step, phase, first]
  exact ⟨_, .of_step rfl stepped, rfl, rfl⟩

variable (X pool) in
private theorem receives_newThread (phase : p.phase = .newThread) {s : Solution}
    {queue : List Solution} (first : p.queue = s :: queue) :
    ∃ q, p.Reaches X pool q ∧ q.connections = p.connections ∧ q.queue = queue := by
  have ready : p.step X pool (.newThread true) = some { p with phase := .select } := by
    simp [Pool.step, phase]
  obtain ⟨q, reached, same, rest⟩ := receives_select X pool
    (p := { p with phase := .select }) rfl first
  exact ⟨q, .trans (.of_step rfl ready) reached, same, rest⟩

variable (X pool) in
/-- Wherever the loop is, a solution can leave the queue. If the loop ends instead, all do. -/
private theorem receives (published : p.Published) (queue : p.phase = .stopped → p.queue = [])
    (some_ : p.queue ≠ []) :
    ∃ q, p.Reaches X pool q ∧ q.connections = p.connections ∧
      q.queue.length < p.queue.length := by
  obtain ⟨s, rest, first⟩ := List.exists_cons_of_ne_nil some_
  have fewer {q : Pool} (left : q.queue = rest) : q.queue.length < p.queue.length := by
    simp [left, first]
  cases phase : p.phase with
  | stopped => exact absurd (queue phase) some_
  | select =>
    obtain ⟨q, reached, same, left⟩ := receives_select X pool phase first
    exact ⟨q, reached, same, fewer left⟩
  | newThread =>
    obtain ⟨q, reached, same, left⟩ := receives_newThread X pool phase first
    exact ⟨q, reached, same, fewer left⟩
  | fetch =>
    -- there is a client to fetch from
    have clients := published.fetching phase
    obtain ⟨block, last⟩ : ∃ block, p.clients.getLast? = some block :=
      Option.isSome_iff_exists.mp (List.getLast?_isSome.mpr fun none => by simp [none] at clients)
    cases built : buildRawTemplate p.templateId block.header block.coinbase block.merklePath with
    | ok raw =>
      have fetched : p.step X pool (.fetch true) = some { p with
          phase := .newThread
          templateId := p.templateId + 1
          published := p.published ++ [raw]
          template := raw } := by
        simp [Pool.step, phase, last, built]
      obtain ⟨q, reached, same, left⟩ := receives_newThread X pool
        (p := { p with
          phase := .newThread
          templateId := p.templateId + 1
          published := p.published ++ [raw]
          template := raw }) rfl first
      exact ⟨q, .trans (.of_step rfl fetched) reached, same, fewer left⟩
    | error e =>
      have stops : p.step X pool (.fetch true) = some p.stop := by
        simp [Pool.step, phase, last, built]
      refine ⟨p.stop, .of_step rfl stops, rfl, ?_⟩
      simp [Pool.stop, first]

variable (X pool) in
/-- With room in the queue, the next effect of a connection can take place. -/
private theorem performs {c : Nat} {pc : PoolConnection} {e : Effect}
    (found : p.connections[c]? = some pc) (next : pc.next = some e)
    (room : p.queue.length < solutionCapacity) :
    ∃ q, p.step X pool (.perform c) = some q ∧
      q.connections = p.connections.set c { pc with performed := pc.performed + 1 } ∧
      q.queue.length ≤ p.queue.length + 1 := by
  have acts : p.step X pool (.perform c) = p.performEffect c pc e := by
    simp [Pool.step, found, next]
  rw [acts]
  cases e with
  | solution data header =>
    by_cases stopped : p.phase = .stopped
    · simp [Pool.performEffect, stopped, Pool.setConnection]
    · simp [Pool.performEffect, stopped, room, Pool.setConnection]
  | _ => simp [Pool.performEffect, Pool.setConnection]

/-- Every effect has left its connection, and the queue. -/
def Pool.Drained (p : Pool) : Prop :=
  p.queue = [] ∧ ∀ pc ∈ p.connections, pc.performed = pc.conn.effects.length

/-- How much is left to leave connections and the queue. -/
def Pool.remaining (p : Pool) : Nat :=
  2 * (p.connections.map fun pc => pc.unsent.length).sum + p.queue.length

private theorem remaining_perform {q : Pool} {c : Nat} {pc : PoolConnection} {e : Effect}
    (found : p.connections[c]? = some pc) (next : pc.next = some e)
    (moved : q.connections = p.connections.set c { pc with performed := pc.performed + 1 })
    (queue : q.queue.length ≤ p.queue.length + 1) : q.remaining < p.remaining := by
  have inside := (List.getElem?_eq_some_iff.mp next).1
  have one : pc.unsent.length = (pc.conn.effects.drop (pc.performed + 1)).length + 1 := by
    simp only [PoolConnection.unsent, List.length_drop]
    omega
  have count : (p.connections.map fun pc => pc.unsent.length)[c]? =
      some ((pc.conn.effects.drop (pc.performed + 1)).length + 1) := by
    rw [List.getElem?_map, found, Option.map_some, one]
  have less := sum_set count (pc.conn.effects.drop (pc.performed + 1)).length
  rw [Pool.remaining, Pool.remaining, moved, List.map_set]
  simp only [PoolConnection.unsent] at less ⊢
  omega

/-- Unless all is done, there is less to do after some progress. -/
private theorem progress (published : p.Published) (queue : p.phase = .stopped → p.queue = [])
    (inside : ∀ pc ∈ p.connections, pc.performed ≤ pc.conn.effects.length)
    (more : ¬p.Drained) :
    ∃ q, p.Reaches X pool q ∧ q.remaining < p.remaining := by
  by_cases empty : p.queue = []
  · -- then there is a connection with an effect to perform, and room for it
    obtain ⟨pc, member, left⟩ : ∃ pc ∈ p.connections, pc.performed ≠ pc.conn.effects.length := by
      by_contra none
      push Not at none
      exact more ⟨empty, none⟩
    obtain ⟨c, found⟩ := List.mem_iff_getElem?.mp member
    have next := List.getElem?_eq_getElem (lt_of_le_of_ne (inside pc member) left)
    obtain ⟨q, stepped, moved, queued⟩ := performs X pool found next
      (by simp [empty, solutionCapacity])
    exact ⟨q, .of_step rfl stepped, remaining_perform found next moved queued⟩
  · obtain ⟨q, reached, same, fewer⟩ := receives X pool published queue empty
    refine ⟨q, reached, ?_⟩
    rw [Pool.remaining, Pool.remaining, same]
    omega

/-! ### Main results -/

/-- The solutions of a connection arrive in the order in which they left it: those in and out
of the queue are the first ones that left, and while the loop runs they are all of them. The
queue never holds more than it should. -/
theorem Pool.fifo (started : Pool.start block = .ok p₀)
    (ran : Pool.run X pool p₀ actions = some p) :
    p.queue.length ≤ solutionCapacity ∧ ∀ c pc, p.connections[c]? = some pc →
      p.sent.filter (·.isFrom c) <+: pc.solutions c ∧
      (p.phase ≠ .stopped → p.sent.filter (·.isFrom c) = pc.solutions c) := by
  obtain ⟨bounded, inOrder⟩ := run_inOrder started ran
  exact ⟨bounded, fun c pc found => ⟨(inOrder c pc found).kept, (inOrder c pc found).all⟩⟩

/-- Nobody waits forever. From every state the pool can go on, with no new input and no new
template, until every effect has left its connection and the queue is empty. Unless the loop
had ended before, or cannot build the template that it is at, all solutions of every
connection are then submitted, in order. -/
theorem Pool.drains (started : Pool.start block = .ok p₀)
    (ran : Pool.run X pool p₀ actions = some p) :
    ∃ q, p.Reaches X pool q ∧ q.queue = [] ∧
      (∀ c : Nat, q.connections[c]? = (p.connections[c]?).map fun pc : PoolConnection =>
        { pc with performed := pc.conn.effects.length }) ∧
      (q.phase = .stopped → p.phase = .stopped ∨
        p.phase = .fetch ∧ p.loopFails (.fetch true)) ∧
      (q.phase ≠ .stopped → ∀ c pc, p.connections[c]? = some pc →
        (q.submitted.map Submission.solution).filter (·.isFrom c) =
          solutionsFrom c 0 pc.conn.effects) := by
  -- what is reached from here is reached from the start
  have reachable {q : Pool} (reached : p.Reaches X pool q) :
      ∃ actions, Pool.run X pool p₀ actions = some q := by
    obtain ⟨more, _, ran'⟩ := reached
    refine ⟨actions ++ more, ?_⟩
    rw [Pool.run] at ran ⊢
    rw [Execution.run_append, ran, Option.bind_some, ran']
  have goesOn (q : Pool) (reached : p.Reaches X pool q) (more : ¬q.Drained) :
      ∃ q', q.Reaches X pool q' ∧ p.Reaches X pool q' ∧ q'.remaining < q.remaining := by
    obtain ⟨actions, ran'⟩ := reachable reached
    have inside : ∀ pc ∈ q.connections, pc.performed ≤ pc.conn.effects.length := by
      intro pc member
      obtain ⟨c, found⟩ := List.mem_iff_getElem?.mp member
      obtain ⟨inputs, served⟩ := (run_serves started ran').present c pc found
      exact served.performed
    obtain ⟨q', moved, less⟩ := progress (run_published started ran')
      (run_queue_of_stopped started ran') inside more
    exact ⟨q', moved, reached.trans moved, less⟩
  obtain ⟨q, _, reached, empty, done⟩ := Execution.reaches_goal (p.Reaches X pool) Drained
    remaining goesOn (.refl p)
  have advanced := reached.advances
  refine ⟨q, reached, empty, fun c => ?_, advanced.stopped, fun alive c pc found => ?_⟩
  · cases found : p.connections[c]? with
    | none =>
      have outside := List.getElem?_eq_none_iff.mp found
      exact List.getElem?_eq_none (advanced.count ▸ outside)
    | some pc =>
      obtain ⟨performed, found'⟩ := advanced.connection c pc found
      have all := done _ (List.mem_of_getElem? found')
      simp only at all
      rw [found', all, Option.map_some]
  · obtain ⟨actions, ran'⟩ := reachable reached
    obtain ⟨performed, found'⟩ := advanced.connection c pc found
    have order := ((run_inOrder started ran').2 c _ found').all alive
    have all := done _ (List.mem_of_getElem? found')
    simp only at all
    rw [sent, empty, List.append_nil] at order
    rw [order, PoolConnection.solutions, all, List.take_length]

/-- Two connections find eight blocks between them, and none is submitted. -/
def crowdedActions : List Action :=
  let solves (c : Nat) (nonce : UInt32) : List Action :=
    [.frame c (.submitSharesExtended (some { regtestShare with nonce })) 1700000010 [],
      .perform c, .perform c, .perform c]
  openActions ++
    [.accept, .frame 1 (.openExtendedMiningChannel (some regtestOpen)) 1700000000 []] ++
    List.replicate 4 (.perform 1) ++ solves 0 0 ++ solves 1 1 ++ solves 0 4 ++ solves 0 5 ++
    solves 1 7 ++ solves 0 8 ++ solves 1 10 ++ solves 0 11

/-- The queue is full, and holds the solutions of each connection in their order. -/
theorem fifo_regtest : ∃ p pc pc',
    Pool.run regtestExternals regtestAddress regtestPool crowdedActions = some p ∧
      p.connections[0]? = some pc ∧ p.connections[1]? = some pc' ∧
      p.queue.length = 8 ∧ p.queue.length ≤ solutionCapacity ∧
      (pc.solutions 0).length = 5 ∧ p.sent.filter (·.isFrom 0) = pc.solutions 0 ∧
      (pc'.solutions 1).length = 3 ∧ p.sent.filter (·.isFrom 1) = pc'.solutions 1 := by
  have runs : (Pool.run regtestExternals regtestAddress regtestPool crowdedActions).any (fun p =>
      (p.phase = .newThread ∧ p.queue.length = 8) ∧
        (p.connections[0]?.any fun pc => (pc.solutions 0).length = 5) ∧
        p.connections[1]?.any fun pc => (pc.solutions 1).length = 3) := by
    decide +kernel
  obtain ⟨p, ran, ⟨phase, full⟩, five, three⟩ := Execution.exists_of_any runs
  obtain ⟨pc, found, five⟩ := Execution.exists_of_any five
  obtain ⟨pc', found', three⟩ := Execution.exists_of_any three
  obtain ⟨bounded, inOrder⟩ := Pool.fifo regtestPool_started ran
  have alive : p.phase ≠ .stopped := by simp [phase]
  exact ⟨p, pc, pc', ran, found, found', full, bounded, five, (inOrder 0 pc found).2 alive, three,
    (inOrder 1 pc' found').2 alive⟩

private theorem solveActions_checks : (regtestAfter solveActions).phase = .newThread ∧
    (regtestAfter solveActions).connections[0]?.any (fun pc => decide
      ((solutionsFrom 0 0 pc.conn.effects).length = 1)) := by
  decide +kernel

/-- The solution of a single share can be submitted. -/
theorem drains_regtest : ∃ q,
    (regtestAfter solveActions).Reaches regtestExternals regtestAddress q ∧ q.queue = [] ∧
      (q.submitted.map Submission.solution |>.filter (·.isFrom 0)).length = 1 := by
  obtain ⟨phase, checked⟩ := solveActions_checks
  obtain ⟨pc, found, one⟩ := Execution.exists_of_any checked
  obtain ⟨q, reached, empty, _, stopped, all⟩ :=
    Pool.drains regtestPool_started solveActions_ran
  have alive : q.phase ≠ .stopped := by
    intro ended
    rcases stopped ended with before | ⟨before, _⟩ <;> simp [phase] at before
  exact ⟨q, reached, empty, by rw [all alive 0 pc found, one]⟩

end MiningPool
