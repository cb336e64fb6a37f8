import MiningPool.Db.Accounting
import MiningPool.Pool.Solutions
import MiningPool.Stratum.Acknowledged

/-!
# From acknowledgement to record

The pool and the database worker side by side, with the channel of events between them. What
a miner was told about a share and what the tables say about it are apart in time: the credit
leaves the connection after the answer, waits in the channel, waits in a batch, and counts
once a flush commits.

## Main results

- `PoolAndDb.run_parts`: pool and worker each run on their own, and the worker has received
  the first events of the pool.
- `PoolAndDb.shares_conserved`: every acknowledged share is in one of these places, and
  nothing else is.
-/

namespace MiningPool

variable {X : Externals} {pool : String} {p p' p₀ : Pool} {a : Action} {actions : List Action}
  {block : BlockTemplate} {address : String}

/-! ### Acknowledgements -/

/-- The address that an effect acknowledges a share of, if it is a success message: the one of
the channel that it names. -/
def PoolConnection.acknowledges (pc : PoolConnection) : Effect → List (Option String)
  | .wire (.submitSharesSuccess m) =>
    [(pc.conn.state.channels.get? m.channelId).map ChannelInfo.minerAddress]
  | _ => []

/-- The address that an action of the pool acknowledges a share of. -/
def Pool.acknowledges (p : Pool) : Action → List (Option String)
  | .perform c =>
    match p.connections[c]? with
    | none => []
    | some pc => pc.next.elim [] pc.acknowledges
  | _ => []

/-- The addresses that shares were acknowledged of in a run, in order. -/
def Pool.acknowledgements (X : Externals) (pool : String) (p : Pool) (actions : List Action) :
    List (Option String) :=
  Execution.outputs (step X pool) (fun p a _ => p.acknowledges a) p actions

/-- The connection is about to credit a share of the address. -/
def PoolConnection.crediting (address : String) (pc : PoolConnection) : Nat :=
  match pc.next with
  | some (.credit event _) => if event.minerAddress = address then 1 else 0
  | _ => 0

/-- How many connections are. -/
def Pool.crediting (address : String) (p : Pool) : Nat :=
  (p.connections.map (PoolConnection.crediting address)).sum

/-- The share events of an address. -/
def sharesTold (address : String) (events : List DbEvent) : Nat :=
  (sharesBy address (sharesOf events)).length

theorem sharesTold_append (address : String) (events later : List DbEvent) :
    sharesTold address (events ++ later) =
      sharesTold address events + sharesTold address later := by
  simp [sharesTold, sharesOf, sharesBy]

/-- What has yet to leave the connection is matched, after a credit maybe. -/
def PoolConnection.Matched (pc : PoolConnection) : Prop :=
  MiningPool.Matched pc.conn.state pc.unsent ∨ ∃ event header rest,
    pc.unsent = .credit event header :: rest ∧ MiningPool.Matched pc.conn.state rest

theorem Matched.quiet_head {s : ConnectionState} {e : Effect} {rest : List Effect}
    (matched : Matched s (e :: rest)) : ∀ event header, e ≠ .credit event header := by
  rintro event header rfl
  cases matched with
  | other quiet => cases quiet

namespace PoolConnection

variable {pc : PoolConnection} {e : Effect}

theorem unsent_of_next (next : pc.next = some e) :
    pc.unsent = e :: PoolConnection.unsent { pc with performed := pc.performed + 1 } := by
  obtain ⟨inside, eq⟩ := List.getElem?_eq_some_iff.mp next
  rw [unsent, List.drop_eq_getElem_cons inside, eq]
  rfl

theorem next_of_unsent {rest : List Effect} (left : pc.unsent = e :: rest) : pc.next = some e := by
  have head := congrArg List.head? left
  rwa [unsent, List.head?_drop] at head

/-- Nothing is credited before what is matched. -/
theorem crediting_of_matched (matched : MiningPool.Matched pc.conn.state pc.unsent) :
    pc.crediting address = 0 := by
  unfold crediting
  split
  next event header next =>
    rw [unsent_of_next next] at matched
    exact absurd rfl (matched.quiet_head event header)
  · rfl

/-- An effect leaves the connection: an answer is counted until its credit is. -/
theorem Matched.perform (address : String) (matched : pc.Matched) (next : pc.next = some e) :
    PoolConnection.Matched { pc with performed := pc.performed + 1 } ∧
      PoolConnection.crediting address { pc with performed := pc.performed + 1 } +
          sharesTold address e.dbEvent?.toList =
        pc.crediting address + (pc.acknowledges e).count (some address) := by
  have left := unsent_of_next next
  have later (matched : MiningPool.Matched pc.conn.state
      (PoolConnection.unsent { pc with performed := pc.performed + 1 })) :
      PoolConnection.crediting address { pc with performed := pc.performed + 1 } = 0 :=
    crediting_of_matched matched
  unfold PoolConnection.Matched
  generalize rest_ : PoolConnection.unsent { pc with performed := pc.performed + 1 } = rest at *
  rcases matched with matched | ⟨event, header, rest', left', matched⟩
  · have none : pc.crediting address = 0 := crediting_of_matched matched
    rw [left] at matched
    cases matched with
    | @other _ _ quiet matched =>
      refine ⟨.inl matched, ?_⟩
      rw [later matched, none]
      -- the effect is neither an answer nor a credit
      cases e with
      | wire m =>
        cases m with
        | submitSharesSuccess => cases quiet
        | _ => rfl
      | credit => cases quiet
      | _ => rfl
    | @answered m channel event header effects found own matched =>
      refine ⟨.inr ⟨event, header, effects, rfl, matched⟩, ?_⟩
      have credit := next_of_unsent rest_
      rw [none]
      simp only [crediting, credit, acknowledges, found, Option.map_some, own]
      by_cases same : channel.minerAddress = address <;> simp [same, Effect.dbEvent?, sharesTold,
        sharesOf, sharesBy]
  · rw [left] at left'
    obtain ⟨rfl, rfl⟩ := List.cons.inj left'
    refine ⟨.inl matched, ?_⟩
    rw [later matched]
    by_cases same : event.minerAddress = address <;>
      simp [crediting, next, acknowledges, Effect.dbEvent?, sharesTold, sharesOf, sharesBy, same]

/-- A connection that handles input had sent all it had, and what it adds is matched. -/
theorem matched_handled {conn : Connection} {i : Input} (idle : pc.Idle)
    (handled : pc.conn.step X true i = some conn) (seen : Nat) :
    PoolConnection.Matched { pc with conn, seen } ∧
      PoolConnection.crediting address { pc with conn, seen } = pc.crediting address := by
  obtain ⟨added, effects, matched⟩ := Connection.step_matched handled
  have left : PoolConnection.unsent { pc with conn, seen } = added := by
    rw [unsent, effects, idle.2.2, List.drop_left]
  have before : pc.unsent = [] := by rw [unsent, idle.2.2, List.drop_length]
  rw [← left] at matched
  refine ⟨.inl matched, ?_⟩
  rw [crediting_of_matched matched, crediting_of_matched (before ▸ .nil)]

end PoolConnection

/-! ### Conservation in the pool -/

/-- A step that changes connection `c`, and counts what it should. -/
private theorem crediting_set {c : Nat} {pc pc' : PoolConnection} {told acknowledged : Nat}
    (found : p.connections[c]? = some pc)
    (moved : p'.connections = p.connections.set c pc')
    (counted : pc'.crediting address + told = pc.crediting address + acknowledged) :
    p'.crediting address + told = p.crediting address + acknowledged := by
  have one : (p.connections.map (PoolConnection.crediting address))[c]? =
      some (pc.crediting address) := by rw [List.getElem?_map, found, Option.map_some]
  have changed := sum_set one (pc'.crediting address)
  rw [Pool.crediting, Pool.crediting, moved, List.map_set]
  omega

/-- A step of the pool acknowledges as much as it credits, now or in its next effect. -/
theorem Pool.Stepped.conserves (address : String) (stepped : Stepped X pool p a p')
    (holds : ∀ pc ∈ p.connections, pc.Matched) :
    (∀ pc ∈ p'.connections, pc.Matched) ∧
      p'.crediting address + sharesTold address p'.events =
        p.crediting address + sharesTold address p.events +
          (p.acknowledges a).count (some address) := by
  have set {c : Nat} {pc' : PoolConnection} (matched : pc'.Matched) :
      ∀ pc ∈ p.connections.set c pc', pc.Matched := by
    intro pc member
    rcases List.mem_or_eq_of_mem_set member with old | rfl
    · exact holds pc old
    · exact matched
  -- an effect leaves its connection
  have performs {c : Nat} {pc : PoolConnection} {e : Effect} (acts : a = .perform c)
      (found : p.connections[c]? = some pc) (next : pc.next = some e)
      (moved : p'.connections =
        p.connections.set c { pc with performed := pc.performed + 1 })
      (events : p'.events = p.events ++ e.dbEvent?.toList) :
      (∀ pc ∈ p'.connections, pc.Matched) ∧
        p'.crediting address + sharesTold address p'.events =
          p.crediting address + sharesTold address p.events +
            (p.acknowledges a).count (some address) := by
    obtain ⟨matched, counted⟩ := (holds pc (List.mem_of_getElem? found)).perform address next
    have acknowledged : p.acknowledges a = pc.acknowledges e := by
      simp [acts, acknowledges, found, next]
    have whole := crediting_set found moved counted
    rw [moved, acknowledged, events, sharesTold_append]
    exact ⟨set matched, by omega⟩
  -- a connection that acknowledges and credits nothing in the step
  have quiet {c : Nat} {pc pc' : PoolConnection} (found : p.connections[c]? = some pc)
      (moved : p'.connections = p.connections.set c pc') (matched : pc'.Matched)
      (same : pc'.crediting address = pc.crediting address) (events : p'.events = p.events)
      (none : p.acknowledges a = []) :
      (∀ pc ∈ p'.connections, pc.Matched) ∧
        p'.crediting address + sharesTold address p'.events =
          p.crediting address + sharesTold address p.events +
            (p.acknowledges a).count (some address) := by
    have whole : p'.crediting address + 0 = p.crediting address + 0 :=
      crediting_set found moved same
    rw [moved, events, none]
    exact ⟨set matched, by simpa using whole⟩
  cases stepped with
  | accept =>
    refine ⟨?_, ?_⟩
    · intro pc member
      rcases List.mem_append.mp member with old | new
      · exact holds pc old
      · rw [List.mem_singleton.mp new]
        exact .inl .nil
    · simp [Pool.crediting, acknowledges, PoolConnection.crediting, PoolConnection.next,
        Connection.new]
  | frame found idle handled =>
    obtain ⟨matched, same⟩ := PoolConnection.matched_handled idle handled _
    exact quiet found rfl matched same rfl rfl
  | changed found idle handled =>
    obtain ⟨matched, same⟩ := PoolConnection.matched_handled idle handled _
    exact quiet found rfl matched same rfl rfl
  | sent found next => exact performs rfl found next rfl (List.append_nil _).symm
  | lost found next => exact performs rfl found next rfl (List.append_nil _).symm
  | performed found next => exact performs rfl found next rfl rfl
  | hangUp found =>
    have matched := holds _ (List.mem_of_getElem? found)
    exact quiet found rfl matched rfl rfl rfl
  | stops fails =>
    have none : p.acknowledges a = [] := by
      cases a with
      | perform => cases fails
      | _ => rfl
    rw [none]
    exact ⟨holds, rfl⟩
  | _ => exact ⟨holds, rfl⟩

/-- Every share that the pool acknowledged was credited, or is about to be. -/
theorem Pool.acknowledged_eq (started : Pool.start block = .ok p₀)
    (ran : Pool.run X pool p₀ actions = some p) (address : String) :
    (acknowledgements X pool p₀ actions).count (some address) =
      p.crediting address + sharesTold address p.events := by
  refine (Execution.run_outputs _ (fun acknowledged p => (∀ pc ∈ p.connections, pc.Matched) ∧
    acknowledged.count (some address) = p.crediting address + sharesTold address p.events)
    ?_ ?_ ran).2
  · rintro acknowledged p a p' ⟨matched, holds⟩ stepped
    obtain ⟨matched', whole⟩ := (step_cases stepped).conserves address matched
    refine ⟨matched', ?_⟩
    rw [List.count_append]
    omega
  · simp only [start, bind_eq_ok] at started
    obtain ⟨first, _, eq⟩ := started
    cases eq
    exact ⟨by simp, rfl⟩

/-! ### The worker at its side -/

/-- The pool and the worker of its database. The worker has received as many events. -/
structure PoolAndDb where
  pool : Pool
  worker : Worker
  received : Nat

/-- A step of one of them. -/
inductive Turn
  | pool (a : Action)
  | worker (i : WorkerInput)

def Turn.action? : Turn → Option Action
  | .pool a => some a
  | .worker _ => none

def Turn.input? : Turn → Option WorkerInput
  | .pool _ => none
  | .worker i => some i

namespace PoolAndDb

/-- The worker receives the events in order, and finds the channel empty only if it is. -/
def Hears (s : PoolAndDb) : WorkerInput → Prop
  | .event ev => s.pool.events[s.received]? = some ev
  | .check .. => True
  | _ => s.received = s.pool.events.length

instance (s : PoolAndDb) : DecidablePred s.Hears
  | .event _ | .timeout | .drained | .disconnected _ => inferInstanceAs (Decidable (_ = _))
  | .check .. => isTrue trivial

def step (X : Externals) (address : String) (s : PoolAndDb) : Turn → Option PoolAndDb
  | .pool a => (s.pool.step X address a).map fun pool => { s with pool }
  | .worker i =>
    if s.Hears i then
      (s.worker.step i).map fun worker =>
        { s with worker, received := s.received + i.event?.toList.length }
    else none

/-- Pool and worker after some turns. -/
def run (X : Externals) (address : String) (s : PoolAndDb) (turns : List Turn) :
    Option PoolAndDb :=
  Execution.run (step X address) s turns

/-- Both at their start. -/
def start (p : Pool) (now : Nat) : PoolAndDb := ⟨p, Worker.new now, 0⟩

end PoolAndDb

/-- The database is only told more. -/
theorem Pool.Stepped.events_grow (stepped : Stepped X pool p a p') : p.events <+: p'.events := by
  cases stepped with
  | performed => exact List.prefix_append _ _
  | _ => exact List.prefix_refl _

/-- The pool ran on its turns and the worker on its own, and the worker has received the first
events of the pool. -/
structure PoolAndDb.Apart (X : Externals) (address : String) (p₀ : Pool) (now : Nat)
    (turns : List Turn) (s : PoolAndDb) : Prop where
  pool : Pool.run X address p₀ (turns.filterMap Turn.action?) = some s.pool
  worker : Execution.run Worker.step (Worker.new now) (turns.filterMap Turn.input?) =
    some s.worker
  received : eventsOf (turns.filterMap Turn.input?) = s.pool.events.take s.received
  within : s.received ≤ s.pool.events.length

theorem PoolAndDb.Apart.step {s s' : PoolAndDb} {p₀ : Pool} {now : Nat} {past : List Turn}
    {turn : Turn} (apart : s.Apart X address p₀ now past)
    (stepped : s.step X address turn = some s') : s'.Apart X address p₀ now (past ++ [turn]) := by
  cases turn with
  | pool a =>
    obtain ⟨p', handled, rfl⟩ := Option.map_eq_some_iff.mp stepped
    obtain ⟨more, events⟩ := (Pool.step_cases handled).events_grow
    have idle : (past ++ [Turn.pool a]).filterMap Turn.input? = past.filterMap Turn.input? := by
      rw [List.filterMap_append]
      exact List.append_nil _
    constructor
    case pool =>
      rw [List.filterMap_append]
      exact Execution.run_snoc apart.pool handled
    case worker =>
      rw [idle]
      exact apart.worker
    case received =>
      rw [idle, apart.received, ← events, List.take_append_of_le_length apart.within]
    case within =>
      rw [← events, List.length_append]
      exact apart.within.trans (Nat.le_add_right _ _)
  | worker i =>
    obtain ⟨hears, stepped⟩ := Option.ite_none_right_eq_some.mp stepped
    obtain ⟨w', handled, rfl⟩ := Option.map_eq_some_iff.mp stepped
    have idle : (past ++ [Turn.worker i]).filterMap Turn.action? = past.filterMap Turn.action? := by
      rw [List.filterMap_append]
      exact List.append_nil _
    constructor
    case pool =>
      rw [idle]
      exact apart.pool
    case worker =>
      rw [List.filterMap_append]
      exact Execution.run_snoc apart.worker handled
    case received =>
      have events := apart.received
      rw [eventsOf] at events ⊢
      rw [List.filterMap_append, List.filterMap_append, events]
      cases i with
      | event ev =>
        have next : s.pool.events[s.received]? = some ev := hears
        have one : ([Turn.worker (.event ev)].filterMap Turn.input?).filterMap
            WorkerInput.event? = [ev] := rfl
        rw [one, WorkerInput.event?, Option.toList_some, List.length_singleton, List.take_add_one,
          next, Option.toList_some]
      | _ => exact List.append_nil _
    case within =>
      cases i with
      | event ev =>
        have next : s.pool.events[s.received]? = some ev := hears
        exact (List.getElem?_eq_some_iff.mp next).1
      | _ => exact apart.within

/-- Pool and worker each run on their own, and all that they share is the channel. -/
theorem PoolAndDb.run_parts {now : Nat} {turns : List Turn} {s : PoolAndDb}
    (ran : PoolAndDb.run X address (.start p₀ now) turns = some s) :
    s.Apart X address p₀ now turns :=
  Execution.run_history (fun past s => s.Apart X address p₀ now past)
    (fun _ _ _ _ apart stepped => apart.step stepped) ⟨rfl, rfl, rfl, Nat.zero_le _⟩ ran

/-! ### Main result -/

/-- The shares that the tables record for an address. -/
def Db.recorded (db : Db) (address : String) : Nat :=
  (db.epochStats.get? address).elim 0 EpochStats.sharesCount

private theorem recorded_of_ledger {db : Db} {events : List DbEvent}
    (tables : db.ledger = Ledger.of events) (address : String) :
    db.recorded address = sharesTold address events := by
  have account : db.account address = Account.of (sharesBy address (sharesOf events)) :=
    congrFun (congrArg Ledger.account tables) address
  rw [Db.recorded, sharesTold]
  rw [Db.account, Account.of] at account
  cases row : db.epochStats.get? address with
  | none =>
    rw [row] at account
    split at account
    next empty => simp [empty]
    · cases account
  | some stats =>
    rw [row] at account
    split at account
    · cases account
    · obtain ⟨count, _⟩ := Account.mk.inj (Option.some.inj account)
      exact count

/-- Every share that was acknowledged is recorded, in the batch of the worker, on its way to
the worker, or credited next; and no other share is. -/
theorem PoolAndDb.shares_conserved (started : Pool.start block = .ok p₀) {now : Nat}
    {turns : List Turn} {s : PoolAndDb}
    (ran : PoolAndDb.run X address (.start p₀ now) turns = some s) (miner : String) :
    (Pool.acknowledgements X address p₀ (turns.filterMap Turn.action?)).count (some miner) =
      s.worker.db.recorded miner + (sharesBy miner s.worker.shareBatch).length +
        sharesTold miner (s.pool.events.drop s.received) + s.pool.crediting miner := by
  have apart := run_parts ran
  obtain ⟨done, pending, received, keeps⟩ := Worker.run_keeps apart.worker
  -- the events of the pool are those the tables cover, those in the batch, and the rest
  have events : s.pool.events = done ++ pending ++ s.pool.events.drop s.received := by
    rw [← received, apart.received, List.take_append_drop]
  rw [Pool.acknowledged_eq started apart.pool, recorded_of_ledger keeps.tables, keeps.shareBatch]
  conv_lhs => rw [events]
  rw [sharesTold_append, sharesTold_append, sharesTold]
  simp only [sharesTold]
  omega

/-- The share of the test network; the worker receives it and flushes. -/
def regtestTurns : List Turn :=
  let events := (regtestAfter solveActions).events
  solveActions.map .pool ++ events.map (fun ev => .worker (.event ev)) ++
    [.worker .drained, .worker (.check 60000 60001
      ⟨61, [(regtestAddress, difficultySum (sharesOf events))], false⟩)]

/-- It is acknowledged and recorded, and nothing else is anywhere. -/
theorem shares_conserved_regtest : ∃ s, PoolAndDb.run regtestExternals regtestAddress
      (.start regtestPool 0) regtestTurns = some s ∧
    s.worker.db.recorded regtestAddress = 1 ∧
    (Pool.acknowledgements regtestExternals regtestAddress regtestPool
      (regtestTurns.filterMap Turn.action?)).count (some regtestAddress) =
        s.worker.db.recorded regtestAddress + (sharesBy regtestAddress s.worker.shareBatch).length +
          sharesTold regtestAddress (s.pool.events.drop s.received) +
          s.pool.crediting regtestAddress := by
  have runs : (PoolAndDb.run regtestExternals regtestAddress (.start regtestPool 0)
      regtestTurns).any (fun s => decide (s.worker.db.recorded regtestAddress = 1)) = true := by
    decide +kernel
  obtain ⟨s, ran, recorded⟩ := Execution.exists_of_any runs
  exact ⟨s, ran, recorded, PoolAndDb.shares_conserved regtestPool_started ran regtestAddress⟩

end MiningPool
