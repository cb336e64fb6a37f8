import MiningPool.Pool.Runs
import MiningPool.Stratum.Grammar
import MiningPool.Stratum.Setup

/-!
# The server

The tasks that `Sv2Server::run` spawns, from the accepted TCP connection on: the handshake,
the setup, and the loop, which is a connection of the pool. Tasks take turns in any order, with
each other and with the IPC loop. What the server adds to a pool are the tasks before their
loop: without them every run of the server is a run of the pool.
-/

namespace MiningPool

/-! ### Sessions -/

/-- Where the task of a TCP connection is. -/
inductive SessionStage
  /-- In `accept_noise`. -/
  | handshake
  /-- In the `read_frame` before the loop. -/
  | setup
  /-- In the loop, as connection `c` of the pool. -/
  | serving (c : Nat)
  /-- Returned before the loop. -/
  | ended (error : String)
deriving DecidableEq

/-- Something that a task sends: the responder's part of the handshake, or a message. -/
inductive Sent
  | handshake
  | setup (m : SetupReply)
  | mining (m : Message)
deriving DecidableEq

/-- `sent` is what left the task before its loop, and `first` the first frame it read. -/
structure Session where
  stage : SessionStage
  sent : List Sent
  first : Option EitherFrame
deriving DecidableEq

structure Server where
  pool : Pool
  sessions : List Session
deriving DecidableEq

/-- What a task does in its loop. -/
inductive Task
  | frame (frame : EitherFrame) (now : Int) (socket : List Bool)
  | changed (order : List UInt32) (socket : List Bool)
  | perform
  | hangUp

def Task.heard? : Task → Option EitherFrame
  | frame received _ _ => some received
  | _ => none

/-- As connection `c` of the pool. -/
def Task.action (C : Sv2Codec) (c : Nat) : Task → Action
  | frame received now socket => .frame c (C.frame received) now socket
  | changed order socket => .changed c order socket
  | perform => .perform c
  | hangUp => .hangUp c

/-- What the IPC loop does. -/
inductive IpcEvent
  | newThread (ok : Bool)
  | waitNextFails
  | waitNextTimesOut
  | waitNext (block : BlockTemplate)
  | fetch (ok : Bool)
  | recvSolution

def IpcEvent.action : IpcEvent → Action
  | newThread ok => .newThread ok
  | waitNextFails => .waitNextFails
  | waitNextTimesOut => .waitNextTimesOut
  | waitNext block => .waitNext block
  | fetch ok => .fetch ok
  | recvSolution => .recvSolution

inductive ServerAction
  /-- `listener.accept()` returns, and the task is spawned. -/
  | accept
  /-- Task `i` is through its handshake. -/
  | handshake (i : Nat)
  /-- Its key is refused, or its handshake fails, before or after the responder has written. -/
  | handshakeFails (i : Nat) (error : String) (written : Bool)
  /-- It reads its first frame. -/
  | firstFrame (i : Nat) (frame : EitherFrame) (socket : List Bool)
  | firstReadFails (i : Nat)
  /-- It takes a step in its loop. -/
  | serve (i : Nat) (task : Task)
  | ipc (event : IpcEvent)

def ServerAction.session? : ServerAction → Option Nat
  | .handshake i => some i
  | .handshakeFails i .. => some i
  | .firstFrame i .. => some i
  | .firstReadFails i => some i
  | .serve i _ => some i
  | _ => none

/-- The frame that a task handles. -/
def ServerAction.heard? : ServerAction → Option EitherFrame
  | .firstFrame _ frame _ => some frame
  | .serve _ task => task.heard?
  | _ => none

def ServerAction.taskOf? (i : Nat) : ServerAction → Option Task
  | .serve j task => if j = i then some task else none
  | _ => none

def ServerAction.ipcEvent? : ServerAction → Option IpcEvent
  | .ipc event => some event
  | _ => none

namespace Server

def setSession (s : Server) (i : Nat) (session : Session) : Server :=
  { s with sessions := s.sessions.set i session }

def step (X : Externals) (C : Sv2Codec) (address : String) (s : Server) :
    ServerAction → Option Server
  | .accept => some { s with sessions := s.sessions ++ [⟨.handshake, [], none⟩] }
  | .handshake i => do
    let session ← s.sessions[i]?
    if session.stage = .handshake then
      some (s.setSession i { session with stage := .setup, sent := [.handshake] })
    else none
  | .handshakeFails i error written => do
    let session ← s.sessions[i]?
    if session.stage = .handshake then
      let sent := if written then [Sent.handshake] else []
      some (s.setSession i { session with stage := .ended error, sent })
    else none
  | .firstFrame i frame socket => do
    let session ← s.sessions[i]?
    if session.stage = .setup then
      let (result, w) := handleSetupConnection C frame ⟨(), [], socket⟩
      let session := { session with
        sent := session.sent ++ w.effects.map Sent.setup
        first := some frame }
      match result with
      | .ok () =>
        -- `ConnectionState::new`, and the loop begins
        let pool ← s.pool.step X address .accept
        let stage := .serving s.pool.connections.length
        some (Server.setSession { s with pool } i { session with stage })
      | .error e => some (s.setSession i { session with stage := .ended e })
    else none
  | .firstReadFails i => do
    let session ← s.sessions[i]?
    if session.stage = .setup then
      some (s.setSession i { session with stage := .ended "read SetupConnection" })
    else none
  | .serve i task => do
    let session ← s.sessions[i]?
    match session.stage with
    | .serving c => (s.pool.step X address (task.action C c)).map fun pool => { s with pool }
    | _ => none
  | .ipc event => (s.pool.step X address event.action).map fun pool => { s with pool }

/-- The server after some actions. -/
def run (X : Externals) (C : Sv2Codec) (address : String) (s : Server)
    (actions : List ServerAction) : Option Server :=
  Execution.run (step X C address) s actions

/-- The server once its pool is ready. -/
def start (p : Pool) : Server := ⟨p, []⟩

/-- All that a session has sent so far. -/
def transcript (s : Server) (session : Session) : List Sent :=
  session.sent ++
    match session.stage with
    | .serving c =>
      match s.pool.connections[c]? with
      | some pc => (sentMessages (pc.conn.effects.take pc.performed)).map Sent.mining
      | none => []
    | _ => []

end Server

variable {X : Externals} {C : Sv2Codec} {address : String} {s s' : Server} {a : ServerAction}

/-! ### Steps -/

/-- What a task can do before its loop, and the frame that it handles. -/
inductive Session.Progress (C : Sv2Codec) : Option EitherFrame → Session → Session → Prop
  | shaken {session} (stage : session.stage = .handshake) :
      Progress C none session { session with stage := .setup, sent := [.handshake] }
  | unshaken {session error} (stage : session.stage = .handshake) (written : Bool) :
      Progress C none session
        { session with stage := .ended error, sent := if written then [.handshake] else [] }
  | turned {session error frame replies} (stage : session.stage = .setup)
      (setUp : SetUp C frame (.error error) replies) :
      Progress C (some frame) session
        { stage := .ended error
          sent := session.sent ++ replies.map Sent.setup
          first := some frame }
  | unread {session} (stage : session.stage = .setup) :
      Progress C none session { session with stage := .ended "read SetupConnection" }

/-- Every way to step from `s` to another state, and the actions of the pool in it. -/
inductive Server.Stepped (X : Externals) (C : Sv2Codec) (address : String) (s : Server) :
    ServerAction → List Action → Server → Prop
  | accept : Stepped X C address s .accept []
      { s with sessions := s.sessions ++ [⟨.handshake, [], none⟩] }
  | progress {a i session session'} (found : s.sessions[i]? = some session)
      (moved : session.Progress C a.heard? session') (own : a.session? = some i)
      (noTask : ∀ j, a.taskOf? j = none) (noEvent : a.ipcEvent? = none) :
      Stepped X C address s a [] (s.setSession i session')
  /-- The setup is passed, and the pool has one more connection. -/
  | admitted {i frame socket session} (found : s.sessions[i]? = some session)
      (stage : session.stage = .setup) (admits : C.Admits frame) :
      Stepped X C address s (.firstFrame i frame socket) [.accept]
        { pool := { s.pool with
            connections := s.pool.connections ++ [⟨Connection.new address, 0, 1, false⟩] }
          sessions := s.sessions.set i
            { stage := .serving s.pool.connections.length
              sent := session.sent ++ [.setup (.setupConnectionSuccess ⟨2, 0x02⟩)]
              first := some frame } }
  | served {i task session c pool} (found : s.sessions[i]? = some session)
      (stage : session.stage = .serving c)
      (stepped : s.pool.step X address (task.action C c) = some pool) :
      Stepped X C address s (.serve i task) [task.action C c] { s with pool }
  | ipc {event pool} (stepped : s.pool.step X address event.action = some pool) :
      Stepped X C address s (.ipc event) [event.action] { s with pool }

theorem Server.step_cases (stepped : s.step X C address a = some s') :
    ∃ actions, Stepped X C address s a actions s' := by
  cases a with
  | accept =>
    cases stepped
    exact ⟨_, .accept⟩
  | handshake i =>
    simp only [step, Option.bind_eq_bind, Option.bind_eq_some_iff] at stepped
    obtain ⟨session, found, stepped⟩ := stepped
    split at stepped
    next stage =>
      cases stepped
      exact ⟨_, .progress found (.shaken stage) rfl (fun _ => rfl) rfl⟩
    · cases stepped
  | handshakeFails i error written =>
    simp only [step, Option.bind_eq_bind, Option.bind_eq_some_iff] at stepped
    obtain ⟨session, found, stepped⟩ := stepped
    split at stepped
    next stage =>
      cases stepped
      exact ⟨_, .progress found (.unshaken stage written) rfl (fun _ => rfl) rfl⟩
    · cases stepped
  | firstFrame i frame socket =>
    simp only [step, Option.bind_eq_bind, Option.bind_eq_some_iff] at stepped
    obtain ⟨session, found, stepped⟩ := stepped
    have setUp := handleSetupConnection_setUp C frame socket
    split at stepped
    next stage =>
      split at stepped
      next done =>
        rw [done] at setUp
        obtain ⟨admits, sent⟩ := setUp.of_ok
        rw [sent] at stepped
        cases stepped
        exact ⟨_, .admitted found stage admits⟩
      next error failed =>
        rw [failed] at setUp
        cases stepped
        exact ⟨_, .progress found (.turned stage setUp) rfl (fun _ => rfl) rfl⟩
    · cases stepped
  | firstReadFails i =>
    simp only [step, Option.bind_eq_bind, Option.bind_eq_some_iff] at stepped
    obtain ⟨session, found, stepped⟩ := stepped
    split at stepped
    next stage =>
      cases stepped
      exact ⟨_, .progress found (.unread stage) rfl (fun _ => rfl) rfl⟩
    · cases stepped
  | serve i task =>
    simp only [step, Option.bind_eq_bind, Option.bind_eq_some_iff] at stepped
    obtain ⟨session, found, stepped⟩ := stepped
    split at stepped
    next c stage =>
      obtain ⟨pool, handled, rfl⟩ := Option.map_eq_some_iff.mp stepped
      exact ⟨_, .served found stage handled⟩
    · cases stepped
  | ipc event =>
    obtain ⟨pool, handled, rfl⟩ := Option.map_eq_some_iff.mp stepped
    exact ⟨_, .ipc handled⟩

/-! ### Sessions of a run -/

/-- What a session has come to: the stage, what was sent before the loop, and the first frame
belong together. -/
inductive Session.Legal (C : Sv2Codec) : Session → Prop
  | handshake : Legal C ⟨.handshake, [], none⟩
  | unshaken {error} (written : Bool) :
      Legal C ⟨.ended error, if written then [.handshake] else [], none⟩
  | setup : Legal C ⟨.setup, [.handshake], none⟩
  | unread {error} : Legal C ⟨.ended error, [.handshake], none⟩
  | silent {error frame} : Legal C ⟨.ended error, [.handshake], some frame⟩
  | refused {error frame errorCode} (refuses : C.Refuses frame errorCode) :
      Legal C ⟨.ended error, [.handshake, .setup (.setupConnectionError ⟨0, errorCode⟩)],
        some frame⟩
  | serving {c frame} (admits : C.Admits frame) :
      Legal C ⟨.serving c, [.handshake, .setup (.setupConnectionSuccess ⟨2, 0x02⟩)], some frame⟩

theorem Session.Legal.progress {session session' : Session} {heard : Option EitherFrame}
    (legal : session.Legal C) (moved : session.Progress C heard session') :
    session'.Legal C := by
  cases moved with
  | shaken stage =>
    cases legal <;> cases stage
    exact .setup
  | unshaken stage written =>
    cases legal <;> cases stage
    exact .unshaken written
  | turned stage setUp =>
    cases legal <;> cases stage
    cases setUp with
    | refused refuses => exact .refused refuses
    | silent => exact .silent
  | unread stage =>
    cases legal <;> cases stage
    exact .unread

theorem Session.Progress.unserved {session session' : Session} {heard : Option EitherFrame}
    (moved : session.Progress C heard session') (c : Nat) :
    session.stage ≠ .serving c ∧ session'.stage ≠ .serving c := by
  cases moved with
  | shaken stage => simp [stage]
  | unshaken stage => simp [stage]
  | turned stage => simp [stage]
  | unread stage => simp [stage]

/-- A session after a step was there before, moved on before its loop, was just accepted, or
just passed its setup. -/
theorem Server.Stepped.session_cases {trace : List Action}
    (stepped : Stepped X C address s a trace s') {i : Nat} {session' : Session}
    (found' : s'.sessions[i]? = some session') :
    s.sessions[i]? = some session' ∨
    (∃ session, s.sessions[i]? = some session ∧ session.Progress C a.heard? session') ∨
    (s.sessions[i]? = none ∧ session' = ⟨.handshake, [], none⟩) ∨
    ∃ session frame socket, a = .firstFrame i frame socket ∧ s.sessions[i]? = some session ∧
      session.stage = .setup ∧ C.Admits frame ∧ trace = [.accept] ∧ session' =
        { stage := .serving s.pool.connections.length
          sent := session.sent ++ [.setup (.setupConnectionSuccess ⟨2, 0x02⟩)]
          first := some frame } := by
  cases stepped with
  | accept =>
    simp only [List.getElem?_append] at found'
    split at found'
    · exact .inl found'
    next outside =>
      have last := List.mem_singleton.mp (List.mem_of_getElem? found')
      exact .inr (.inr (.inl ⟨List.getElem?_eq_none (Nat.not_lt.mp outside), last⟩))
  | @progress _ i₀ session session₁ found moved =>
    rcases getElem?_set_cases found found' with ⟨rfl, found, rfl⟩ | ⟨_, same⟩
    · exact .inr (.inl ⟨session, found, moved⟩)
    · exact .inl same
  | @admitted i₀ frame socket session found stage admits =>
    rcases getElem?_set_cases found found' with ⟨rfl, found, rfl⟩ | ⟨_, same⟩
    · exact .inr (.inr (.inr ⟨session, frame, socket, rfl, found, stage, admits, rfl, rfl⟩))
    · exact .inl same
  | served => exact .inl found'
  | ipc => exact .inl found'

theorem Server.Stepped.legal {trace : List Action} (stepped : Stepped X C address s a trace s')
    (legal : ∀ (i : Nat) (session : Session), s.sessions[i]? = some session → session.Legal C)
    (i : Nat) (session' : Session) (found' : s'.sessions[i]? = some session') :
    session'.Legal C := by
  rcases stepped.session_cases found' with same | ⟨session, found, moved⟩ | ⟨_, rfl⟩ |
    ⟨session, frame, _, _, found, stage, admits, _, rfl⟩
  · exact legal i session' same
  · exact (legal i session found).progress moved
  · exact .handshake
  · have before := legal i session found
    cases before <;> cases stage
    exact .serving admits

theorem Server.run_legal {p : Pool} {actions : List ServerAction}
    (ran : Server.run X C address (.start p) actions = some s) {i : Nat} {session : Session}
    (found : s.sessions[i]? = some session) : session.Legal C := by
  refine Execution.run_invariant (fun s : Server => ∀ (i : Nat) (session : Session),
    s.sessions[i]? = some session → session.Legal C) ?_ ?_ ran i session found
  · intro s a s' legal stepped
    obtain ⟨_, cases_⟩ := Server.step_cases stepped
    exact cases_.legal legal
  · intro i session found
    cases found

/-! ### The pool below -/

/-- The actions of the pool that are neither for a connection nor accept one. -/
def Action.isIpc : Action → Bool
  | .newThread _ | .waitNextFails | .waitNextTimesOut | .waitNext _ | .fetch _ | .recvSolution =>
    true
  | _ => false

@[simp] theorem Task.connection?_action (task : Task) (c : Nat) :
    (task.action C c).connection? = some c := by
  cases task <;> rfl

@[simp] theorem Task.isIpc_action (task : Task) (c : Nat) : (task.action C c).isIpc = false := by
  cases task <;> rfl

@[simp] theorem IpcEvent.connection?_action (event : IpcEvent) :
    event.action.connection? = none := by
  cases event <;> rfl

@[simp] theorem IpcEvent.isIpc_action (event : IpcEvent) : event.action.isIpc = true := by
  cases event <;> rfl

/-- What task `i` did in its loop. -/
def Server.tasksOf (i : Nat) (actions : List ServerAction) : List Task :=
  actions.filterMap (ServerAction.taskOf? i)

def Server.ipcEventsOf (actions : List ServerAction) : List IpcEvent :=
  actions.filterMap ServerAction.ipcEvent?

theorem Server.tasksOf_concat (i : Nat) (past : List ServerAction) (a : ServerAction) :
    tasksOf i (past ++ [a]) = tasksOf i past ++ (a.taskOf? i).toList := by
  rw [tasksOf, List.filterMap_append]
  cases acts : a.taskOf? i <;> simp [tasksOf, acts]

theorem Server.ipcEventsOf_concat (past : List ServerAction) (a : ServerAction) :
    ipcEventsOf (past ++ [a]) = ipcEventsOf past ++ a.ipcEvent?.toList := by
  rw [ipcEventsOf, List.filterMap_append]
  cases acts : a.ipcEvent? <;> simp [ipcEventsOf, acts]

/-- Task `i` is in its loop, as connection `c`. -/
def Server.Serves (s : Server) (i c : Nat) : Prop :=
  ∃ session, s.sessions[i]? = some session ∧ session.stage = .serving c

/-- The tasks in their loop are the connections of the pool, each one once. -/
structure Server.Hosts (s : Server) : Prop where
  placed : ∀ i c, s.Serves i c → c < s.pool.connections.length
  apart : ∀ i j c, s.Serves i c → s.Serves j c → i = j
  hosted : ∀ c, c < s.pool.connections.length → ∃ i, s.Serves i c

/-- The pool ran on `trace`: there, the loops of the tasks and the IPC loop do what they did in
the server, and the rest of the server's actions is missing. -/
structure Server.Traced (X : Externals) (C : Sv2Codec) (address : String) (p : Pool)
    (past : List ServerAction) (s : Server) (trace : List Action) : Prop where
  ran : Pool.run X address p trace = some s.pool
  tasks : ∀ i c, s.Serves i c →
    Pool.actionsOf c trace = (tasksOf i past).map (Task.action C c)
  idle : ∀ i, (∀ c, ¬s.Serves i c) → tasksOf i past = []
  fresh : ∀ c, s.pool.connections.length ≤ c → Pool.actionsOf c trace = []
  ipc : trace.filter Action.isIpc = (ipcEventsOf past).map IpcEvent.action

theorem Server.Serves.unique {i c c' : Nat} (one : s.Serves i c) (other : s.Serves i c') :
    c = c' := by
  obtain ⟨session, found, stage⟩ := one
  obtain ⟨session', found', stage'⟩ := other
  rw [found, Option.some.injEq] at found'
  rw [← found', stage, SessionStage.serving.injEq] at stage'
  exact stage'

/-- A task in its loop stays there. -/
theorem Server.Stepped.serves {trace : List Action} (stepped : Stepped X C address s a trace s')
    {i c : Nat} (serves : s.Serves i c) : s'.Serves i c := by
  obtain ⟨session, found, stage⟩ := serves
  have other {i' : Nat} {session₀ session' : Session} (found' : s.sessions[i']? = some session₀)
      (moved : session₀.stage ≠ .serving c) :
      (s.sessions.set i' session')[i]? = some session := by
    rw [List.getElem?_set_ne, found]
    rintro rfl
    rw [found, Option.some.injEq] at found'
    exact moved (found' ▸ stage)
  cases stepped with
  | accept =>
    have inside := (List.getElem?_eq_some_iff.mp found).1
    exact ⟨session, (List.getElem?_append_left inside).trans found, stage⟩
  | progress found' moved => exact ⟨session, other found' (moved.unserved c).1, stage⟩
  | admitted found' stage' => exact ⟨session, other found' (by simp [stage']), stage⟩
  | served => exact ⟨session, found, stage⟩
  | ipc => exact ⟨session, found, stage⟩

/-- A task in its loop was there before, or just passed its setup. -/
theorem Server.Stepped.serves_cases {trace : List Action}
    (stepped : Stepped X C address s a trace s') {i c : Nat} (serves : s'.Serves i c) :
    s.Serves i c ∨ (∃ frame socket, a = .firstFrame i frame socket) ∧ (∀ c', ¬s.Serves i c') ∧
      trace = [.accept] ∧ c = s.pool.connections.length := by
  obtain ⟨session', found', stage'⟩ := serves
  rcases stepped.session_cases found' with same | ⟨session, found, moved⟩ | ⟨_, rfl⟩ |
    ⟨session, frame, socket, acts, found, stage, _, accepts, rfl⟩
  · exact .inl ⟨session', same, stage'⟩
  · exact absurd stage' (moved.unserved c).2
  · cases stage'
  · cases stage'
    refine .inr ⟨⟨frame, socket, acts⟩, ?_, accepts, rfl⟩
    rintro c' ⟨session₁, found₁, stage₁⟩
    rw [found, Option.some.injEq] at found₁
    rw [← found₁, stage] at stage₁
    cases stage₁

/-- Connections come with `accept` only. -/
theorem Pool.Stepped.connections_length {p p' : Pool} {a : Action}
    (stepped : Stepped X address p a p') (other : a ≠ .accept) :
    p'.connections.length = p.connections.length := by
  cases stepped with
  | accept => exact absurd rfl other
  | stops => rfl
  | _ => simp [setConnection]

theorem Task.action_ne_accept (task : Task) (c : Nat) : task.action C c ≠ .accept := by
  cases task <;> simp [action]

theorem IpcEvent.action_ne_accept (event : IpcEvent) : event.action ≠ .accept := by
  cases event <;> simp [action]

/-- The pool gains a connection with the task that serves it, or gains none. -/
theorem Server.Stepped.length_cases {trace : List Action}
    (stepped : Stepped X C address s a trace s') :
    trace ≠ [.accept] ∧ s'.pool.connections.length = s.pool.connections.length ∨
    trace = [.accept] ∧ s'.pool.connections.length = s.pool.connections.length + 1 ∧
      ∃ i, s'.Serves i s.pool.connections.length := by
  cases stepped with
  | accept => exact .inl ⟨by simp, rfl⟩
  | progress => exact .inl ⟨by simp, rfl⟩
  | @admitted i frame socket session found =>
    have inside := (List.getElem?_eq_some_iff.mp found).1
    exact .inr ⟨rfl, by simp, i, _, List.getElem?_set_self inside, rfl⟩
  | @served i task session c pool _ _ handled =>
    have other := task.action_ne_accept (C := C) c
    exact .inl ⟨by simp [other], (Pool.step_cases handled).connections_length other⟩
  | @ipc event pool handled =>
    have other := event.action_ne_accept
    exact .inl ⟨by simp [other], (Pool.step_cases handled).connections_length other⟩

theorem Server.Stepped.hosts {trace : List Action} (stepped : Stepped X C address s a trace s')
    (holds : s.Hosts) : s'.Hosts where
  placed := by
    intro i c serves
    rcases stepped.serves_cases serves with before | ⟨_, _, accepts, rfl⟩
    · have inside := holds.placed i c before
      rcases stepped.length_cases with ⟨_, same⟩ | ⟨_, more, _⟩ <;> omega
    · rcases stepped.length_cases with ⟨other, _⟩ | ⟨_, more, _⟩
      · exact absurd accepts other
      · omega
  apart := by
    intro i j c first second
    rcases stepped.serves_cases first with before | ⟨⟨_, _, acts⟩, _, _, new⟩
    · rcases stepped.serves_cases second with before' | ⟨_, _, _, rfl⟩
      · exact holds.apart i j c before before'
      -- a new connection has a new number
      · exact absurd (holds.placed _ _ before) (lt_irrefl _)
    · rcases stepped.serves_cases second with before' | ⟨⟨_, _, acts'⟩, _⟩
      · exact absurd (holds.placed _ _ (new ▸ before')) (lt_irrefl _)
      · rw [acts] at acts'
        injection acts'
  hosted := by
    intro c inside
    rcases stepped.length_cases with ⟨_, same⟩ | ⟨_, more, i, serves⟩
    · obtain ⟨i, serves⟩ := holds.hosted c (same ▸ inside)
      exact ⟨i, stepped.serves serves⟩
    · by_cases last : c = s.pool.connections.length
      · exact ⟨i, last ▸ serves⟩
      · obtain ⟨i, serves⟩ := holds.hosted c (by omega)
        exact ⟨i, stepped.serves serves⟩

section Trace

variable {trace : List Action} {i c : Nat}

/-- In a step, a connection of the pool does what its task does. -/
theorem Server.Stepped.agrees (stepped : Stepped X C address s a trace s') (holds : s.Hosts)
    (serves : s.Serves i c) :
    Pool.actionsOf c trace = (a.taskOf? i).toList.map (Task.action C c) := by
  cases stepped with
  | accept => rfl
  | progress _ _ _ noTask => simp [noTask, Pool.actionsOf]
  | admitted => rfl
  | @served j task session c' _ found stage =>
    have serves' : s.Serves j c' := ⟨session, found, stage⟩
    by_cases same : j = i
    · subst same
      obtain rfl := serves.unique serves'
      simp [Pool.actionsOf, ServerAction.taskOf?]
    · have other : c' ≠ c := fun eq => same (holds.apart j i c (eq ▸ serves') serves)
      simp [Pool.actionsOf, ServerAction.taskOf?, same, other]
  | ipc => simp [Pool.actionsOf, ServerAction.taskOf?]

theorem Server.Stepped.idle (stepped : Stepped X C address s a trace s')
    (idle : ∀ c, ¬s.Serves i c) : a.taskOf? i = none := by
  cases stepped with
  | accept => rfl
  | progress _ _ _ noTask => exact noTask i
  | admitted => rfl
  | @served j task session c' _ found stage =>
    apply if_neg
    rintro rfl
    exact idle c' ⟨session, found, stage⟩
  | ipc => rfl

theorem Server.Stepped.fresh (stepped : Stepped X C address s a trace s') (holds : s.Hosts)
    (beyond : s.pool.connections.length ≤ c) : Pool.actionsOf c trace = [] := by
  cases stepped with
  | accept => rfl
  | progress => rfl
  | admitted => rfl
  | @served j task session c' _ found stage =>
    have inside := holds.placed j c' ⟨session, found, stage⟩
    have other : c' ≠ c := by omega
    simp [Pool.actionsOf, other]
  | ipc => simp [Pool.actionsOf]

theorem Server.Stepped.ipc_trace (stepped : Stepped X C address s a trace s') :
    trace.filter Action.isIpc = a.ipcEvent?.toList.map IpcEvent.action := by
  cases stepped with
  | accept => rfl
  | progress _ _ _ _ noEvent => simp [noEvent]
  | admitted => rfl
  | served => simp [ServerAction.ipcEvent?]
  | ipc => simp [ServerAction.ipcEvent?]

theorem Server.Stepped.ran (stepped : Stepped X C address s a trace s') :
    Pool.run X address s.pool trace = some s'.pool := by
  cases stepped with
  | accept => rfl
  | progress => rfl
  | admitted => rfl
  | served _ _ handled => simp [Pool.run, Execution.run_cons, handled]
  | ipc handled => simp [Pool.run, Execution.run_cons, handled]

end Trace

theorem Server.Traced.step {p : Pool} {past : List ServerAction} {trace acts : List Action}
    (holds : s.Traced X C address p past trace) (hosts : s.Hosts)
    (stepped : Stepped X C address s a acts s') :
    s'.Traced X C address p (past ++ [a]) (trace ++ acts) where
  ran := by
    rw [Pool.run, Execution.run_append]
    have before := holds.ran
    rw [Pool.run] at before
    rw [before]
    exact stepped.ran
  tasks := by
    intro i c serves
    rw [Pool.actionsOf_append, tasksOf_concat, List.map_append]
    rcases stepped.serves_cases serves with before | ⟨⟨_, _, acts⟩, idle, accepts, rfl⟩
    · rw [holds.tasks i c before, stepped.agrees hosts before]
    -- before its loop a task did nothing in it
    · rw [holds.fresh _ le_rfl, holds.idle i idle, accepts, acts]
      rfl
  idle := by
    intro i idle
    have before : ∀ c, ¬s.Serves i c := fun c serves => idle c (stepped.serves serves)
    rw [tasksOf_concat, holds.idle i before, stepped.idle before]
    rfl
  fresh := by
    intro c beyond
    have before : s.pool.connections.length ≤ c := by
      rcases stepped.length_cases with ⟨_, same⟩ | ⟨_, more, _⟩ <;> omega
    rw [Pool.actionsOf_append, holds.fresh c before, stepped.fresh hosts before]
    rfl
  ipc := by
    rw [List.filter_append, ipcEventsOf_concat, List.map_append, holds.ipc, stepped.ipc_trace]

/-- Every run has a trace in the pool. -/
theorem Server.run_traced {block : BlockTemplate} {p : Pool} {actions : List ServerAction}
    (started : Pool.start block = .ok p)
    (ran : Server.run X C address (.start p) actions = some s) :
    s.Hosts ∧ ∃ trace, s.Traced X C address p actions trace := by
  refine Execution.run_history (fun past s => s.Hosts ∧ ∃ trace, s.Traced X C address p past trace)
    ?_ ?_ ran
  · rintro past s a s' ⟨hosts, trace, traced⟩ stepped
    obtain ⟨acts, cases_⟩ := Server.step_cases stepped
    exact ⟨cases_.hosts hosts, trace ++ acts, traced.step hosts cases_⟩
  · obtain ⟨none, _⟩ := Pool.start_connections started
    refine ⟨⟨?_, ?_, ?_⟩, [], rfl, ?_, fun _ _ => rfl, fun _ _ => rfl, rfl⟩
    · rintro i c ⟨session, found, _⟩
      cases found
    · rintro i j c ⟨session, found, _⟩
      cases found
    · intro c inside
      simp [Server.start, none] at inside
    · rintro i c ⟨session, found, _⟩
      cases found

/-! ### The order of what is sent -/

/-- The message, or the responder's part of the handshake, may be sent after `before`. -/
def Sent.Follows (before : List Sent) : Sent → Prop
  | .handshake => before = []
  | .setup _ => before = [.handshake]
  | .mining m => ∃ messages, m.Follows messages ∧
    before = [.handshake, .setup (.setupConnectionSuccess ⟨2, 0x02⟩)] ++ messages.map .mining

private theorem mining_ordered {messages : List Message}
    (ordered : History.Ordered Message.Follows messages) :
    History.Ordered Sent.Follows
      ([.handshake, .setup (.setupConnectionSuccess ⟨2, 0x02⟩)] ++ messages.map .mining) := by
  induction messages using List.reverseRecOn with
  | nil =>
    rw [List.map_nil, List.append_nil, History.ordered_pair]
    exact ⟨rfl, rfl⟩
  | append_singleton messages m ih =>
    rw [History.ordered_concat] at ordered
    rw [List.map_append, ← List.append_assoc, List.map_singleton, History.ordered_concat]
    exact ⟨ih ordered.1, messages, ordered.2, rfl⟩

/-- What was sent before the loop, and whether the setup answers the first frame. -/
private theorem legal_sent {session : Session} (legal : session.Legal C) :
    History.Ordered Sent.Follows session.sent ∧
    (∀ m, .setup (.setupConnectionSuccess m) ∈ session.sent →
      ∃ frame, session.first = some frame ∧ C.Admits frame) ∧
    ∀ m, .setup (.setupConnectionError m) ∈ session.sent →
      m.flags = 0 ∧ ∃ frame, session.first = some frame ∧ C.Refuses frame m.errorCode := by
  cases legal with
  | handshake => simp
  | unshaken written => cases written <;> simp [Sent.Follows]
  | setup => simp [Sent.Follows]
  | unread => simp [Sent.Follows]
  | silent => simp [Sent.Follows]
  | refused refuses => simp [Sent.Follows, refuses]
  | serving admits => simp [Sent.Follows, admits]

theorem Server.run_ordered {block : BlockTemplate} {p : Pool} {actions : List ServerAction}
    (started : Pool.start block = .ok p)
    (ran : Server.run X C address (.start p) actions = some s) {i : Nat} {session : Session}
    (found : s.sessions[i]? = some session) :
    History.Ordered Sent.Follows (s.transcript session) ∧
    (∀ m, .setup (.setupConnectionSuccess m) ∈ s.transcript session →
      ∃ frame, session.first = some frame ∧ C.Admits frame) ∧
    ∀ m, .setup (.setupConnectionError m) ∈ s.transcript session →
      m.flags = 0 ∧ ∃ frame, session.first = some frame ∧ C.Refuses frame m.errorCode := by
  have legal := run_legal ran found
  have before := legal_sent legal
  obtain ⟨hosts, trace, traced⟩ := run_traced started ran
  rw [transcript]
  cases legal with
  | @serving c frame admits =>
    have inside := hosts.placed i c ⟨_, found, rfl⟩
    -- the connection ran on its own, and a part of its effects has left it
    have connected := List.getElem?_eq_getElem inside
    obtain ⟨inputs, served⟩ := (Pool.run_serves started traced.ran).present c _ connected
    have mining := Connection.run_ordered served.ran
      (List.take_prefix s.pool.connections[c].performed _)
    simp only [connected]
    refine ⟨mining_ordered mining, ?_, ?_⟩ <;> simp [admits]
  | _ => simpa only [List.append_nil] using before

/-! ### Main results -/

/-- Every run of the server is a run of the pool, in which each task that is in its loop is one
connection and does what it did, and so does the IPC loop. -/
theorem Server.refines_pool {block : BlockTemplate} {p : Pool} {actions : List ServerAction}
    (started : Pool.start block = .ok p)
    (ran : Server.run X C address (.start p) actions = some s) :
    s.Hosts ∧ ∃ trace, s.Traced X C address p actions trace :=
  run_traced started ran

/-- What a session sends is in order, whatever the other sessions and the IPC loop do: the
handshake, then one answer to the setup, and if the first frame was admitted, messages of the
mining protocol in their order. An error says what was wrong with the first frame. -/
theorem Server.transcript_ordered {block : BlockTemplate} {p : Pool} {actions : List ServerAction}
    (started : Pool.start block = .ok p)
    (ran : Server.run X C address (.start p) actions = some s) {i : Nat} {session : Session}
    (found : s.sessions[i]? = some session) :
    History.Ordered Sent.Follows (s.transcript session) ∧
    (∀ m, .setup (.setupConnectionSuccess m) ∈ s.transcript session →
      ∃ frame, session.first = some frame ∧ C.Admits frame) ∧
    ∀ m, .setup (.setupConnectionError m) ∈ s.transcript session →
      m.flags = 0 ∧ ∃ frame, session.first = some frame ∧ C.Refuses frame m.errorCode :=
  run_ordered started ran found

/-! ### A server of the test network -/

/-- A setup for the mining protocol, version 2 only, to 127.0.0.1:13334. -/
def regtestSetupPayload : List UInt8 :=
  [0, 2, 0, 2, 0, 2, 0, 0, 0, 9, 49, 50, 55, 46, 48, 46, 48, 46, 49, 0x16, 0x34, 0, 0, 0, 0]

def regtestOpenPayload : List UInt8 :=
  [1, 0, 0, 0, UInt8.ofNat regtestAddress.length] ++
    regtestAddress.toList.map (fun c => UInt8.ofNat c.toNat) ++ List.replicate 36 0 ++ [4, 0]

/-- The message types of the protocol, and parsers for the two payloads. -/
def regtestCodec : Sv2Codec where
  messageTypeSetupConnection := 0x00
  messageTypeOpenExtendedMiningChannel := 0x13
  messageTypeSubmitSharesExtended := 0x1b
  setupConnection payload :=
    if payload = regtestSetupPayload then some ⟨.miningProtocol, 2, 2⟩ else none
  openExtendedMiningChannel payload :=
    if payload = regtestOpenPayload then some regtestOpen else none
  submitSharesExtended _ := none

/-- A client shakes hands, passes its setup and opens a channel; another one is refused. -/
def regtestVisits : List ServerAction :=
  [.accept, .accept, .handshake 0, .handshake 1,
    .firstFrame 0 (.sv2 (some 0x13) regtestOpenPayload) [],
    .firstFrame 1 (.sv2 (some 0x00) regtestSetupPayload) [],
    .serve 1 (.frame (.sv2 (some 0x13) regtestOpenPayload) 1700000000 []),
    .serve 1 .perform, .ipc (.newThread true), .serve 1 .perform, .serve 1 .perform]

theorem server_refines_pool_regtest : ∃ s, Server.run regtestExternals regtestCodec regtestAddress
      (.start regtestPool) regtestVisits = some s ∧
    s.Hosts ∧ ∃ trace, s.Traced regtestExternals regtestCodec regtestAddress regtestPool
      regtestVisits trace := by
  have runs : (Server.run regtestExternals regtestCodec regtestAddress (.start regtestPool)
      regtestVisits).isSome := by
    decide +kernel
  obtain ⟨s, ran⟩ := Option.isSome_iff_exists.mp runs
  exact ⟨s, ran, Server.refines_pool regtestPool_started ran⟩

/-- The second client has been sent five messages, the first one two. -/
theorem transcript_ordered_regtest : ∃ s session, Server.run regtestExternals regtestCodec
      regtestAddress (.start regtestPool) regtestVisits = some s ∧
    s.sessions[1]? = some session ∧ (s.transcript session).length = 5 ∧
    History.Ordered Sent.Follows (s.transcript session) := by
  have runs : (Server.run regtestExternals regtestCodec regtestAddress (.start regtestPool)
      regtestVisits).any (fun s => decide ((s.sessions[1]?.any fun session =>
        decide ((s.transcript session).length = 5)) = true)) = true := by
    decide +kernel
  obtain ⟨s, ran, sent⟩ := Execution.exists_of_any runs
  obtain ⟨session, found, count⟩ := Execution.exists_of_any sent
  exact ⟨s, session, ran, found, count, (Server.transcript_ordered regtestPool_started ran found).1⟩

end MiningPool
