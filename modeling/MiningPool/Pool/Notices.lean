import MiningPool.Library.History
import MiningPool.Pool.Runs
import MiningPool.Stratum.Notices

/-!
# The trace of a run

When templates are published, when connections see them, and what is said on each channel,
as one list for the whole pool.
-/

namespace MiningPool

variable {X : Externals} {pool : String} {p p' : Pool} {a : Action}

namespace Pool

/-- What connection `c` said in a step. -/
def said (p : Pool) (c : Nat) (p' : Pool) : List Notice :=
  match p.connections[c]?, p'.connections[c]? with
  | some pc, some pc' =>
    (pc.conn.added pc'.conn).filterMap (Effect.notice? c p.template.newTemplate.templateId)
  | _, _ => []

def notices (p : Pool) (a : Action) (p' : Pool) : List Notice :=
  match a with
  | .frame c .. => p.said c p'
  | .changed c .. => .changed c :: p.said c p'
  | .fetch _ => if p'.published.length = p.published.length then [] else [.published]
  | _ => []

/-- The notices of a run, in order. -/
def trace (X : Externals) (pool : String) (p : Pool) (actions : List Action) : List Notice :=
  Execution.outputs (step X pool) notices p actions

end Pool

/-! ### One step -/

/-- What the watch channel shows after a step. -/
inductive Pool.Watched (p : Pool) (a : Action) (p' : Pool) : Prop
  | same (published : p'.published = p.published) (template : p'.template = p.template)
      (silent : .published ∉ p.notices a p')
  | next {raw} (published : p'.published = p.published ++ [raw]) (template : p'.template = raw)
      (connections : p'.connections = p.connections) (notices : p.notices a p' = [.published])

/-- A connection says that a channel is open, or gives it a job for the latest template. -/
theorem Pool.said_cases {c : Nat} {n : Notice} (member : n ∈ p.said c p') :
    (∃ id, n = .opened c id) ∨
      ∃ id jobId, n = .job c id jobId p.template.newTemplate.templateId := by
  unfold Pool.said at member
  split at member
  · obtain ⟨e, -, eq⟩ := List.mem_filterMap.mp member
    unfold Effect.notice? at eq
    split at eq
    next m =>
      cases eq
      exact .inl ⟨m.channelId, rfl⟩
    next m =>
      cases eq
      exact .inr ⟨m.channelId, m.jobId, rfl⟩
    · cases eq
  · cases member

theorem Pool.published_not_said (p p' : Pool) (c : Nat) : .published ∉ p.said c p' := by
  intro member
  rcases said_cases member with ⟨_, same⟩ | ⟨_, _, same⟩ <;> cases same

theorem Pool.changed_not_said (p p' : Pool) (c c' : Nat) : .changed c ∉ p.said c' p' := by
  intro member
  rcases said_cases member with ⟨_, same⟩ | ⟨_, _, same⟩ <;> cases same

theorem Pool.step_watched (stepped : p.step X pool a = some p') : p.Watched a p' := by
  cases step_cases stepped with
  | frame => exact .same rfl rfl (published_not_said p _ _)
  | changed =>
    refine .same rfl rfl ?_
    rw [notices, List.mem_cons, not_or]
    exact ⟨by simp, published_not_said p _ _⟩
  | fetched =>
    refine .next rfl rfl rfl ?_
    simp [notices]
  -- only a fetch stops the pool, and it stays quiet
  | stops fails =>
    refine .same rfl rfl ?_
    cases a with
    | frame => cases fails
    | changed => cases fails
    | fetch => simp [notices, stop]
    | _ => exact List.not_mem_nil
  | _ => exact .same rfl rfl List.not_mem_nil

/-- What a step does to connection `c`, and what it says on its channels. -/
inductive Pool.Shows (X : Externals) (pool : String) (p : Pool) (a : Action) (p' : Pool) (c : Nat)
    (pc' : PoolConnection) : Prop
  | kept {pc} (found : p.connections[c]? = some pc) (conn : pc'.conn = pc.conn)
      (seen : pc'.seen = pc.seen)
      (silent : ∀ id, (p.notices a p').filter (Notice.isAbout c id) = [])
  | accepted (absent : p.connections[c]? = none) (conn : pc'.conn = Connection.new pool)
      (seen : pc'.seen = 1) (silent : ∀ id, (p.notices a p').filter (Notice.isAbout c id) = [])
  | framed {pc received now socket} (found : p.connections[c]? = some pc)
      (action : a = .frame c received now socket)
      (stepped : pc.conn.step X true (.frame received p.template now socket) = some pc'.conn)
      (seen : pc'.seen = pc.seen)
      (said : ∀ id, (p.notices a p').filter (Notice.isAbout c id) =
        noticesAbout c id p.template.newTemplate.templateId (pc.conn.added pc'.conn))
  | changed {pc order socket} (found : p.connections[c]? = some pc)
      (action : a = .changed c order socket) (unseen : pc.seen ≠ p.published.length)
      (stepped : pc.conn.step X true (.templateChanged p.template order socket) = some pc'.conn)
      (seen : pc'.seen = p.published.length)
      (said : ∀ id, (p.notices a p').filter (Notice.isAbout c id) =
        noticesAbout c id p.template.newTemplate.templateId (pc.conn.added pc'.conn))

/-- A connection speaks of its own channels only. -/
private theorem said_of_other {c c' : Nat} (other : c' ≠ c) (id : UInt32) :
    (p.said c' p').filter (Notice.isAbout c id) = [] := by
  rw [List.filter_eq_nil_iff]
  intro n member
  rcases Pool.said_cases member with ⟨_, rfl⟩ | ⟨_, _, rfl⟩ <;> simp [Notice.isAbout, other]

theorem Pool.notices_of_other {c : Nat} (quiet : a.inputFor p.template c = none)
    (id : UInt32) : (p.notices a p').filter (Notice.isAbout c id) = [] := by
  cases a with
  | frame c' received now socket =>
    have other : c' ≠ c := fun same => by simp [Action.inputFor, same] at quiet
    exact said_of_other other id
  | changed c' order socket =>
    have other : c' ≠ c := fun same => by simp [Action.inputFor, same] at quiet
    simp [Pool.notices, Notice.isAbout, said_of_other other id]
  | fetch ok =>
    rw [Pool.notices]
    split <;> rfl
  | _ => rfl

/-- What connection `c` says is what its own step added. -/
private theorem said_eq {c : Nat} {pc pc' : PoolConnection} (found : p.connections[c]? = some pc)
    (found' : p'.connections[c]? = some pc') (id : UInt32) :
    (p.said c p').filter (Notice.isAbout c id) =
      noticesAbout c id p.template.newTemplate.templateId (pc.conn.added pc'.conn) := by
  simp only [Pool.said, found, found']
  rfl

/-- A template change is for a connection that has yet to see the latest version. -/
theorem Pool.step_changed {c : Nat} {order : List UInt32} {socket : List Bool}
    (stepped : p.step X pool (.changed c order socket) = some p') :
    ∃ pc pc', p.connections[c]? = some pc ∧ p'.connections[c]? = some pc' ∧
      pc.seen ≠ p.published.length ∧
      pc.conn.step X true (.templateChanged p.template order socket) = some pc'.conn ∧
      pc'.seen = p.published.length ∧
      ∀ id, (p.notices (.changed c order socket) p').filter (Notice.isAbout c id) =
        noticesAbout c id p.template.newTemplate.templateId (pc.conn.added pc'.conn) := by
  simp only [step, Option.bind_eq_bind, Option.bind_eq_some_iff] at stepped
  obtain ⟨pc, found, stepped⟩ := stepped
  split at stepped
  next ready =>
    obtain ⟨conn, handled, rfl⟩ := Option.map_eq_some_iff.mp stepped
    have found' : (p.setConnection c { pc with conn, seen := p.published.length }).connections[c]? =
        some { pc with conn, seen := p.published.length } :=
      List.getElem?_set_self (List.getElem?_eq_some_iff.mp found).1
    refine ⟨pc, _, found, found', ready.2, handled, rfl, fun id => ?_⟩
    rw [notices, List.filter_cons_of_neg (by simp [Notice.isAbout])]
    exact said_eq found found' id
  · cases stepped

theorem Pool.step_shows (stepped : p.step X pool a = some p') {c : Nat} {pc' : PoolConnection}
    (found' : p'.connections[c]? = some pc') : Shows X pool p a p' c pc' := by
  -- an action for another connection leaves this one as it was, or accepts it
  have quietly (quiet : a.inputFor p.template c = none) : Shows X pool p a p' c pc' := by
    rcases (step_cases stepped).connection found' with ⟨pc, found, touched⟩ | ⟨absent, _, rfl⟩
    · cases touched with
      | kept => exact .kept found rfl rfl (notices_of_other quiet)
      | performed => exact .kept found rfl rfl (notices_of_other quiet)
      | handled input =>
        rw [quiet] at input
        cases input
    · exact .accepted absent rfl rfl (notices_of_other quiet)
  cases a with
  | frame c' received now socket =>
    by_cases same : c' = c
    · subst same
      cases step_cases stepped with
      | frame found idle handled =>
        rcases getElem?_set_cases found found' with ⟨_, _, rfl⟩ | ⟨other, _⟩
        · exact .framed found rfl handled rfl (said_eq found found')
        · exact absurd rfl other
      | stops fails => cases fails
    · exact quietly (if_neg same)
  | changed c' order socket =>
    by_cases same : c' = c
    · subst same
      obtain ⟨pc, pc₁, found, found₁, unseen, handled, seen, said⟩ := step_changed stepped
      rw [found', Option.some.injEq] at found₁
      subst found₁
      exact .changed found rfl unseen handled seen said
    · exact quietly (if_neg same)
  | _ => exact quietly rfl

end MiningPool
