import MiningPool.Pool.Conversation
import MiningPool.Pool.Server

/-!
# What a session is told

A client of the server sends raw frames, and what it hears begins with the handshake and the
setup. Past these it is at the desk that the clients of the pool are at, whatever the other
sessions do and however far they have come.

## Main result

`Server.session_replies`: the replies in the transcript of a session are the first of those that
the desk gives to the requests among its frames, and all of them once nothing is left to send.
-/

namespace MiningPool

variable {X : Externals} {C : Sv2Codec} {address : String} {s : Server} {i c : Nat}
  {session : Session}

/-! ### Requests -/

/-- The request in the frame that a task handles, if there is one. -/
def Task.request? (C : Sv2Codec) : Task → Option Request
  | frame received _ _ => (C.frame received).request?
  | _ => none

/-- The requests of session `i`, in order. -/
def Server.requestsOf (C : Sv2Codec) (i : Nat) (actions : List ServerAction) : List Request :=
  (tasksOf i actions).filterMap (Task.request? C)

private theorem request?_action (task : Task) : (task.action C c).request? c = task.request? C := by
  cases task with
  | frame received now socket => exact if_pos rfl
  | _ => rfl

private theorem connection_of_request {a : Action} {r : Request} (asks : a.request? c = some r) :
    a.connection? = some c := by
  cases a with
  | frame c' received now socket =>
    obtain ⟨same, _⟩ := Option.ite_none_right_eq_some.mp asks
    exact congrArg some same
  | _ => cases asks

/-- The requests of a connection are among its actions. -/
private theorem requestsOf_actionsOf (trace : List Action) :
    Pool.requestsOf c trace = (Pool.actionsOf c trace).filterMap (Action.request? c) := by
  induction trace with
  | nil => rfl
  | cons a trace ih =>
    rw [Pool.requestsOf, Pool.actionsOf, List.filter_cons]
    by_cases own : a.connection? = some c
    · rw [if_pos (decide_eq_true own), List.filterMap_cons, List.filterMap_cons]
      cases a.request? c with
      | none => exact ih
      | some r => exact congrArg (r :: ·) ih
    · have quiet : a.request? c = none :=
        Option.eq_none_iff_forall_ne_some.mpr fun r asks => own (connection_of_request asks)
      rw [if_neg (mt of_decide_eq_true own), List.filterMap_cons_none quiet]
      exact ih

/-- In the trace of a run, the connection of a session has the requests of the session. -/
private theorem requestsOf_trace {p : Pool} {actions : List ServerAction} {trace : List Action}
    (traced : s.Traced X C address p actions trace) (serves : s.Serves i c) :
    Pool.requestsOf c trace = Server.requestsOf C i actions := by
  rw [requestsOf_actionsOf, traced.tasks i c serves, List.filterMap_map, Server.requestsOf]
  exact List.filterMap_congr fun task _ => request?_action task

/-! ### Replies -/

def Sent.reply? : Sent → Option Reply
  | mining m => m.reply?
  | _ => none

/-- The replies that a session has sent, in order. -/
def Server.replied (s : Server) (session : Session) : List Reply :=
  (s.transcript session).filterMap Sent.reply?

/-- The handshake and the setup are no replies. -/
private theorem replies_before_loop (legal : session.Legal C) :
    session.sent.filterMap Sent.reply? = [] := by
  cases legal with
  | unshaken written => cases written <;> rfl
  | _ => rfl

private theorem replied_unserved (legal : session.Legal C)
    (unserved : ∀ c, session.stage ≠ .serving c) : s.replied session = [] := by
  rw [Server.replied, Server.transcript]
  split
  next c stage => exact absurd stage (unserved c)
  · rw [List.append_nil, replies_before_loop legal]

private theorem replied_serving {pc : PoolConnection} (legal : session.Legal C)
    (stage : session.stage = .serving c) (found : s.pool.connections[c]? = some pc) :
    s.replied session = pc.replied := by
  simp only [Server.replied, Server.transcript, stage, found]
  rw [List.filterMap_append, replies_before_loop legal, List.filterMap_map]
  rfl

/-! ### Main result -/

/-- In every run of the server, the replies that left a session are the first of those of the
desk; and while it is served with nothing left to send, they are those to all its requests. -/
theorem Server.session_replies {block : BlockTemplate} {p : Pool} {actions : List ServerAction}
    (started : Pool.start block = .ok p)
    (ran : Server.run X C address (.start p) actions = some s)
    (found : s.sessions[i]? = some session) :
    s.replied session <+: (Desk.after (requestsOf C i actions)).replies ∧
    ∀ c pc, session.stage = .serving c → s.pool.connections[c]? = some pc →
      pc.performed = pc.conn.effects.length → pc.conn.live = true →
      s.replied session = (Desk.after (requestsOf C i actions)).replies := by
  have legal := run_legal ran found
  obtain ⟨hosts, trace, traced⟩ := run_traced started ran
  constructor
  · by_cases served : ∃ c, session.stage = .serving c
    · obtain ⟨c, stage⟩ := served
      have serves : s.Serves i c := ⟨session, found, stage⟩
      have connected := List.getElem?_eq_getElem (hosts.placed i c serves)
      rw [replied_serving legal stage connected, ← requestsOf_trace traced serves]
      exact Pool.run_replied started traced.ran connected
    · rw [replied_unserved legal fun c stage => served ⟨c, stage⟩]
      exact List.nil_prefix
  · intro c pc stage connected drained live
    rw [replied_serving legal stage connected,
      ← requestsOf_trace traced ⟨session, found, stage⟩]
    exact Pool.run_replied_all started traced.ran connected drained live

/-- The second client of the test network, until nothing is left to send. -/
def settledVisits : List ServerAction := regtestVisits ++ [.serve 1 .perform]

/-- It has made one request, which was answered. -/
theorem session_replies_regtest : ∃ s session,
    Server.run regtestExternals regtestCodec regtestAddress (.start regtestPool) settledVisits =
        some s ∧
      s.sessions[1]? = some session ∧ s.replied session = [.opened 1 0] ∧
      s.replied session = (Desk.after (Server.requestsOf regtestCodec 1 settledVisits)).replies := by
  have runs : (Server.run regtestExternals regtestCodec regtestAddress (.start regtestPool)
      settledVisits).any (fun s =>
        s.sessions[1]?.any (fun session =>
          session.stage = .serving 0 ∧ s.replied session = [.opened 1 0]) ∧
        s.pool.connections[0]?.any fun pc =>
          pc.performed = pc.conn.effects.length ∧ pc.conn.live = true) = true := by
    decide +kernel
  obtain ⟨s, ran, told, drained⟩ := Execution.exists_of_any runs
  obtain ⟨session, found, serving, replied⟩ := Execution.exists_of_any told
  obtain ⟨pc, connected, sent, live⟩ := Execution.exists_of_any drained
  obtain ⟨_, all⟩ := Server.session_replies regtestPool_started ran found
  exact ⟨s, session, ran, found, replied, all 0 pc serving connected sent live⟩

end MiningPool
