import MiningPool.Pool.Solutions

/-!
# Delivery of solutions

Whether a solution that left its connection is in the queue or has been submitted, once
and not twice, and when it is lost.
-/

namespace MiningPool

open Bitcoin

variable {X : Externals} {pool : String} {p p' p₀ : Pool} {a : Action} {actions : List Action}
  {block : BlockTemplate}

/-- A loop that has returned leaves no queue. -/
theorem Pool.Stepped.queue_of_stopped (stepped : Stepped X pool p a p')
    (holds : p.phase = .stopped → p.queue = []) : p'.phase = .stopped → p'.queue = [] := by
  cases stepped with
  | sent _ _ alive =>
    intro stopped
    exact absurd stopped alive
  | ready => nofun
  | timedOut => nofun
  | stops => exact fun _ => rfl
  | waited => nofun
  | fetched => nofun
  | received => nofun
  | _ => exact holds

theorem Pool.run_queue_of_stopped (started : Pool.start block = .ok p₀)
    (ran : Pool.run X pool p₀ actions = some p) : p.phase = .stopped → p.queue = [] :=
  Execution.run_invariant (fun p => p.phase = .stopped → p.queue = []) (fun _ _ _ holds stepped =>
    (step_cases stepped).queue_of_stopped holds) (fun _ => (start_connections started).2.1) ran

/-- The IPC loop fails only with an empty queue, and no solution is sent once it did. -/
def Pool.Lossless (p : Pool) (a : Action) : Prop :=
  (p.loopFails a → p.queue = []) ∧ (p.sendsSolution a → p.phase ≠ .stopped)

instance (p : Pool) (a : Action) : Decidable (p.Lossless a) := inferInstanceAs (Decidable (_ ∧ _))

/-- Every solution that left its connection is in the queue or submitted, once. -/
def Pool.Kept (p : Pool) : Prop :=
  ∀ (c : Nat) pc (n : Nat) data header, p.connections[c]? = some pc → n < pc.performed →
    pc.conn.effects[n]? = some (.solution data header) → p.sent.count ⟨c, n, data, header⟩ = 1

/-- A step that loses nothing only adds to what was sent, and that is the solution it sends. -/
theorem Pool.Stepped.sent_of_lossless (stepped : Stepped X pool p a p') (lossless : p.Lossless a) :
    (p'.sent = p.sent ∧ ¬p.sendsSolution a) ∨
    ∃ c pc data header, a = .perform c ∧ p.connections[c]? = some pc ∧
      pc.next = some (.solution data header) ∧
      p'.sent = p.sent ++ [⟨c, pc.performed, data, header⟩] := by
  rcases stepped.sent_cases with ⟨same, sends⟩ | ⟨fails, rfl⟩ |
    ⟨c, pc, data, header, which, found, next, _, same⟩
  · exact .inl ⟨same, fun h => lossless.2 h (sends h)⟩
  · -- the loop fails with nothing in its queue
    refine .inl ⟨?_, fun sends => ?_⟩
    · rw [Pool.sent, Pool.sent, stop, lossless.1 fails]
    · cases a with
      | perform => cases fails
      | _ => cases sends
  · exact .inr ⟨c, pc, data, header, which, found, next, same⟩

/-- What has yet to leave its connection was never sent. -/
private theorem count_unsent (traced : p.Traced) {c : Nat} {pc : PoolConnection}
    (found : p.connections[c]? = some pc) (data : SubmitSolutionData) (header : Header) :
    p.sent.count ⟨c, pc.performed, data, header⟩ = 0 := by
  -- whatever was sent has an index below that of the next effect
  refine List.count_eq_zero.mpr fun member => ?_
  obtain ⟨pc', found', left, _⟩ := traced _ member
  rw [found, Option.some.injEq] at found'
  subst found'
  exact Nat.lt_irrefl _ left

theorem Pool.Stepped.kept (stepped : Stepped X pool p a p') (lossless : p.Lossless a)
    (traced : p.Traced) (holds : p.Kept) : p'.Kept := by
  intro c pc' n data header found' left effect
  -- what was sent before is not sent again
  have old {pc : PoolConnection} (found : p.connections[c]? = some pc) (left : n < pc.performed)
      (effect : pc.conn.effects[n]? = some (.solution data header)) :
      p'.sent.count ⟨c, n, data, header⟩ = 1 := by
    rcases stepped.sent_of_lossless lossless with ⟨same, _⟩ | ⟨c₁, pc₁, _, _, _, found₁, _, same⟩
    · rw [same]
      exact holds c pc n data header found left effect
    · rw [same, List.count_append, holds c pc n data header found left effect,
        List.count_singleton, if_neg]
      intro equal
      obtain ⟨rfl, rfl, _, _⟩ := Solution.mk.inj (beq_iff_eq.mp equal)
      rw [found, Option.some.injEq] at found₁
      subst found₁
      exact Nat.lt_irrefl _ left
  rcases stepped.connection found' with ⟨pc, found, touched⟩ | ⟨_, _, rfl⟩
  · cases touched with
    | kept => exact old found left effect
    -- a connection that handles input has sent all it had
    | handled _ idle handled =>
      obtain ⟨added, effects⟩ := (Connection.step_cases handled).effects
      rw [effects, List.getElem?_append_left (idle.2.2 ▸ left)] at effect
      exact old found left effect
    | performed which next =>
      rcases Nat.lt_or_eq_of_le (Nat.le_of_lt_succ left) with before | rfl
      · exact old found before effect
      -- the effect that leaves now is the solution
      have sends : p.sendsSolution a := by
        rw [which, sendsSolution, found, Option.bind_some, PoolConnection.next, effect]
        rfl
      rcases stepped.sent_of_lossless lossless with ⟨_, quiet⟩ |
        ⟨c₁, pc₁, data₁, header₁, which₁, found₁, next₁, same⟩
      · exact absurd sends quiet
      rw [which] at which₁
      cases which₁
      rw [found, Option.some.injEq] at found₁
      subst found₁
      rw [PoolConnection.next, effect] at next₁
      cases next₁
      rw [same, List.count_append, count_unsent traced found, List.count_singleton_self]
  · cases effect

/-- Effect `n` of a connection is a solution, and the success message after it was sent. -/
structure PoolConnection.Acknowledged (pc : PoolConnection) (n : Nat) (data : SubmitSolutionData)
    (header : Header) : Prop where
  solution : pc.conn.effects[n]? = some (.solution data header)
  answer : ∃ share, pc.conn.effects[n + 1]? = some (accepted share)
  sent : n + 1 < pc.performed

/-- As long as the IPC loop fails with an empty queue only, and no solution is sent after
that, every acknowledged solution is in the queue of the loop or was submitted, once. -/
theorem acknowledged_solution_kept (started : Pool.start block = .ok p₀)
    (ran : Pool.run X pool p₀ actions = some p)
    (lossless : Execution.Along (Pool.step X pool) Pool.Lossless p₀ actions) {c n : Nat}
    {pc : PoolConnection} {data : SubmitSolutionData} {header : Header}
    (found : p.connections[c]? = some pc) (acknowledged : pc.Acknowledged n data header) :
    let s : Solution := ⟨c, n, data, header⟩
    p.queue.count s + (p.submitted.map Submission.solution).count s = 1 ∧
      (s ∈ p.queue → p.phase ≠ .stopped) := by
  intro s
  have kept : p.Kept := by
    refine (Execution.run_history_along (fun past p => Pool.run X pool p₀ past = some p ∧ p.Kept)
      ?_ ?_ lossless ran).2
    · -- that nothing is sent twice needs the run so far, the rest the step alone
      intro past p a p' holds met stepped
      obtain ⟨reached, holds⟩ := holds
      exact ⟨Execution.run_snoc reached stepped,
        (Pool.step_cases stepped).kept met (Pool.run_traced started reached) holds⟩
    · refine ⟨rfl, fun c pc n data header found => ?_⟩
      rw [(Pool.start_connections started).1] at found
      cases found
  constructor
  · have once := kept c pc n data header found (Nat.lt_of_succ_lt acknowledged.sent)
      acknowledged.solution
    rwa [Pool.sent, List.count_append, Nat.add_comm] at once
  · intro queued stopped
    -- a loop that has returned has no queue
    rw [Pool.run_queue_of_stopped started ran stopped] at queued
    cases queued

/-- The solution of the test network, and the header it is for. -/
def regtestSolution : Solution where
  connection := 0
  index := 4
  data := solutionOf regtestJob regtestShare
    (shareCoinbase regtestChannel regtestJob regtestShare.extranonce.val)
  header := shareHeader regtestExternals regtestJob regtestCoinbaseTx regtestShare

/-- The connection that sent it. -/
def solvedConnection : PoolConnection :=
  ((regtestAfter solveActions).connections[0]?).getD ⟨Connection.new "", 0, 0, false⟩

private theorem solvedConnection_acknowledged :
    solvedConnection.Acknowledged 4 regtestSolution.data regtestSolution.header := by
  have checks : solvedConnection.conn.effects[4]? =
        some (.solution regtestSolution.data regtestSolution.header) ∧
      solvedConnection.conn.effects[5]? = some (accepted regtestShare) ∧
      solvedConnection.performed = 7 := by decide +kernel
  obtain ⟨solution, answer, performed⟩ := checks
  exact ⟨solution, ⟨_, answer⟩, by omega⟩

theorem acknowledged_solution_kept_queued :
    let p := regtestAfter solveActions
    let s : Solution := ⟨0, 4, regtestSolution.data, regtestSolution.header⟩
    p.queue.count s + (p.submitted.map Submission.solution).count s = 1 ∧
      p.phase ≠ .stopped := by
  intro p s
  have checks : Execution.Along (Pool.step regtestExternals regtestAddress) Pool.Lossless
        regtestPool solveActions ∧
      p.connections[0]? = some solvedConnection ∧ s ∈ p.queue := by decide +kernel
  obtain ⟨lossless, found, queued⟩ := checks
  obtain ⟨once, alive⟩ := acknowledged_solution_kept regtestPool_started solveActions_ran lossless
    found solvedConnection_acknowledged
  exact ⟨once, alive queued⟩

/-- The loop fails to get a thread while the solution is in the queue. -/
def droppedActions : List Action := solveActions ++ [.newThread false]

/-- The acknowledged solution is neither queued nor submitted. -/
theorem acknowledged_solution_dropped :
    let p := regtestAfter droppedActions
    Pool.run regtestExternals regtestAddress regtestPool droppedActions = some p ∧
      p.connections[0]? = some solvedConnection ∧
      solvedConnection.Acknowledged 4 regtestSolution.data regtestSolution.header ∧
      p.queue = [] ∧ p.submitted = [] := by
  intro p
  have checks : (Pool.run regtestExternals regtestAddress regtestPool droppedActions).isSome ∧
      p.connections[0]? = some solvedConnection ∧ p.queue = [] ∧ p.submitted = [] := by
    decide +kernel
  obtain ⟨runs, found, queue, submitted⟩ := checks
  exact ⟨regtestAfter_ran runs, found, solvedConnection_acknowledged, queue, submitted⟩

end MiningPool
