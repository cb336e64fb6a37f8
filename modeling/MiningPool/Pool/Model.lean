import MiningPool.Stratum.Connection

/-!
# The pool

The IPC loop of `node_ipc.rs`, the watch channel and the solution queue that lead out of
it and back, and any number of connections. A handler runs at once on its connection's
own state; what it sends leaves the connection one effect at a time, in any order with
the steps of the others.
-/

namespace MiningPool

open Bitcoin

/-- Where the IPC loop waits. -/
inductive IpcPhase
  /-- In `new_thread`, at the top of the loop. -/
  | newThread
  /-- In `select!`. -/
  | select
  /-- In `fetch_template` of a new block client. -/
  | fetch
  /-- The loop has returned; its ends of the channels are gone. -/
  | stopped
deriving DecidableEq

/-- A solution in the queue: which connection sent it, as which of its effects, and the
header that the connection hashed. -/
structure Solution where
  connection : Nat
  index : Nat
  data : SubmitSolutionData
  header : Header
deriving DecidableEq

/-- A call of `submit_solution`: on which block client, counted in the order obtained. -/
structure Submission where
  client : Nat
  solution : Solution
deriving DecidableEq

/-- A connection of the server. `seen` is the version its receiver last marked as seen, and
the first `performed` effects of `conn` have left the connection. -/
structure PoolConnection where
  conn : Connection
  performed : Nat
  seen : Nat
  closed : Bool
deriving DecidableEq

/-- `clients` are the block clients obtained so far, the current one last; `published` the
templates put into the watch channel, whose version is their count. -/
structure Pool where
  phase : IpcPhase
  clients : List BlockTemplate
  templateId : Nat
  published : List RawTemplate
  template : RawTemplate
  queue : List Solution
  submitted : List Submission
  connections : List PoolConnection
  events : List DbEvent
deriving DecidableEq

/-- The bound of the solution channel. -/
def solutionCapacity : Nat := 8

namespace PoolConnection

/-- The task waits in its loop: nothing is left to send, and it has not ended. -/
def Idle (pc : PoolConnection) : Prop :=
  pc.conn.live = true ∧ pc.closed = false ∧ pc.performed = pc.conn.effects.length

instance (pc : PoolConnection) : Decidable pc.Idle := inferInstanceAs (Decidable (_ ∧ _ ∧ _))

/-- The next effect to leave the connection. -/
def next (pc : PoolConnection) : Option Effect := pc.conn.effects[pc.performed]?

end PoolConnection

inductive Action
  /-- A connection passes its setup. -/
  | accept
  /-- Connection `c` reads a frame. -/
  | frame (c : Nat) (frame : Frame) (now : Int) (socket : List Bool)
  /-- Connection `c` sees a template change. -/
  | changed (c : Nat) (order : List UInt32) (socket : List Bool)
  /-- The next effect of connection `c` takes place. -/
  | perform (c : Nat)
  /-- The peer of connection `c` hangs up. -/
  | hangUp (c : Nat)
  | newThread (ok : Bool)
  /-- `wait_next` fails, times out, or returns a new block client. -/
  | waitNextFails
  | waitNextTimesOut
  | waitNext (block : BlockTemplate)
  /-- The requests of `fetch_template` go through, or one fails. -/
  | fetch (ok : Bool)
  | recvSolution

namespace Pool

/-- The pool once the first template is ready. -/
def start (block : BlockTemplate) : Except String Pool := do
  let first ← buildRawTemplate 0 block.header block.coinbase block.merklePath
  return {
    phase := .newThread
    clients := [block]
    templateId := 1
    published := [first]
    template := first
    queue := []
    submitted := []
    connections := []
    events := [] }

/-- The loop returns: what is in the queue goes with it. -/
def stop (p : Pool) : Pool := { p with phase := .stopped, queue := [] }

def setConnection (p : Pool) (c : Nat) (pc : PoolConnection) : Pool :=
  { p with connections := p.connections.set c pc }

/-- An input for connection `c`, which marks version `seen` as seen. -/
def deliver (X : Externals) (p : Pool) (c : Nat) (pc : PoolConnection) (i : Input) (seen : Nat) :
    Option Pool :=
  (pc.conn.step X true i).map fun conn => p.setConnection c { pc with conn, seen }

/-- The next effect of connection `c` takes place. A solution waits for room in the queue,
and is lost when the loop has returned. -/
def performEffect (p : Pool) (c : Nat) (pc : PoolConnection) : Effect → Option Pool
  | .wire _ => some (p.setConnection c { pc with performed := pc.performed + 1 })
  | .solution data header =>
    let sent := p.setConnection c { pc with performed := pc.performed + 1 }
    -- `send` on the bounded queue fails at once when the receiver is gone, and waits when it is full
    if p.phase = .stopped then some sent
    else if p.queue.length < solutionCapacity then
      some { sent with queue := p.queue ++ [⟨c, pc.performed, data, header⟩] }
    else none
  | .credit event _ =>
    some { p.setConnection c { pc with performed := pc.performed + 1 } with
      events := p.events ++ [.share event] }
  | .connected address timestamp =>
    some { p.setConnection c { pc with performed := pc.performed + 1 } with
      events := p.events ++ [.minerConnected address timestamp] }

def step (X : Externals) (pool : String) (p : Pool) : Action → Option Pool
  | .accept =>
    -- the receiver is cloned from the server's, which has seen the first template only
    some { p with connections := p.connections ++ [⟨Connection.new pool, 0, 1, false⟩] }
  | .frame c frame now socket => do
    let pc ← p.connections[c]?
    -- `borrow` reads the latest version without marking it as seen
    if pc.Idle then p.deliver X c pc (.frame frame p.template now socket) pc.seen else none
  | .changed c order socket => do
    let pc ← p.connections[c]?
    if pc.Idle ∧ pc.seen ≠ p.published.length then
      -- `borrow_and_update` marks it
      p.deliver X c pc (.templateChanged p.template order socket) p.published.length
    else none
  | .perform c => do
    let pc ← p.connections[c]?
    p.performEffect c pc (← pc.next)
  | .hangUp c => do
    let pc ← p.connections[c]?
    if pc.Idle then some (p.setConnection c { pc with closed := true }) else none
  -- the branches of the IPC loop
  | .newThread ok =>
    if p.phase = .newThread then some (if ok then { p with phase := .select } else p.stop) else none
  | .waitNextFails => if p.phase = .select then some p.stop else none
  | .waitNextTimesOut => if p.phase = .select then some { p with phase := .newThread } else none
  | .waitNext block =>
    -- the client before it is destroyed
    if p.phase = .select then some { p with phase := .fetch, clients := p.clients ++ [block] }
    else none
  | .fetch ok =>
    if p.phase = .fetch then
      match p.clients.getLast? with
      | none => none
      | some block =>
        match ok, buildRawTemplate p.templateId block.header block.coinbase block.merklePath with
        | true, .ok raw =>
          some { p with
            phase := .newThread
            templateId := p.templateId + 1
            published := p.published ++ [raw]
            template := raw }
        -- any error of the requests or of the template ends the loop
        | _, _ => some p.stop
    else none
  | .recvSolution =>
    if p.phase = .select then
      match p.queue with
      | [] => none
      | solution :: queue =>
        -- an error of `submit_solution` is only logged
        some { p with
          phase := .newThread
          queue
          submitted := p.submitted ++ [⟨p.clients.length - 1, solution⟩] }
    else none

/-- The pool after some actions. -/
def run (X : Externals) (pool : String) (p : Pool) (actions : List Action) : Option Pool :=
  Execution.run (step X pool) p actions

end Pool

end MiningPool
