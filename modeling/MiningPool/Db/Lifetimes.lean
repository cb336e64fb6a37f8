import MiningPool.Db.Journal

/-!
# Lifetimes of the worker

The file outlives the worker. Each start opens the tables that are there; each end, in order
or not, leaves the tables of the last flush that committed, and what was received after it is
gone.

## Main result

`Db.lifetimes_ledger`: after any number of lifetimes the tables say what the events are worth
that were received before the last commit of each.
-/

namespace MiningPool

/-! ### The model -/

/-- `DbWorker::start`: `CREATE TABLE IF NOT EXISTS` leaves the tables as they are. -/
def Worker.opened (db : Db) (start : Nat) : Worker := { new start with db }

/-- A worker from its start to the end of its process, which may come after any input. -/
structure Lifetime where
  start : Nat
  inputs : List WorkerInput

/-- The tables that a lifetime leaves. -/
def Db.live (db : Db) (l : Lifetime) : Option Db :=
  (Execution.run Worker.step (.opened db l.start) l.inputs).map Worker.db

/-- The tables after some lifetimes. -/
def Db.after (lifetimes : List Lifetime) : Option Db := Execution.run Db.live Db.empty lifetimes

/-! ### What a lifetime makes durable -/

/-- The input makes a flush that does not fail. -/
def Worker.settles (w : Worker) (i : WorkerInput) : Bool :=
  (w.attempts i).any fun attempt => !attempt.fails

/-- The events before the last flush that commits: `done` are durable already, and `pending`
came since. -/
def Worker.durable (w : Worker) (done pending : List DbEvent) : List WorkerInput → List DbEvent
  | [] => done
  | i :: inputs =>
    match w.step i with
    | none => done
    | some w' =>
      if w.settles i then w'.durable (done ++ pending) [] inputs
      else w'.durable done (pending ++ i.event?.toList) inputs

def Lifetime.durable (l : Lifetime) : List DbEvent := (Worker.new l.start).durable [] [] l.inputs

variable {w w' : Worker} {i : WorkerInput} {inputs : List WorkerInput}
  {done pending prior : List DbEvent} {lifetimes : List Lifetime} {db : Db}

/-! ### The tables do not matter to the worker -/

private theorem flush_withDb (w : Worker) (db : Db) (attempt : Attempt) :
    ∃ db', ({ w with db } : Worker).flush attempt = { w.flush attempt with db := db' } := by
  unfold Worker.flush
  split
  · exact ⟨_, rfl⟩
  · split <;> exact ⟨_, rfl⟩

/-- Both workers step, to workers that differ in their tables only, or none does. -/
def Worker.InStep (first second : Option Worker) : Prop :=
  first = none ∧ second = none ∨
    ∃ (w : Worker) (db : Db), first = some w ∧ second = some { w with db }

private theorem flush_inStep (w : Worker) (db : Db) (attempt : Attempt) (f : Worker → Worker)
    (same : ∀ (w : Worker) (db : Db), f { w with db } = { f w with db }) : Worker.InStep
      (if w.Walks attempt then some (f (w.flush attempt)) else none)
      (if w.Walks attempt then some (f (({ w with db } : Worker).flush attempt)) else none) := by
  obtain ⟨db', flushed⟩ := flush_withDb w db attempt
  rw [flushed, same (w.flush attempt) db']
  split
  · exact .inr ⟨_, db', rfl, rfl⟩
  · exact .inl ⟨rfl, rfl⟩

/-- The worker never reads what it wrote. -/
private theorem step_inStep (w : Worker) (db : Db) (i : WorkerInput) :
    Worker.InStep (w.step i) (({ w with db } : Worker).step i) := by
  have flushes := flush_inStep w db
  obtain ⟨db₀, shares, miners, windows, lastFlush, phase⟩ := w
  cases phase with
  | waiting =>
    cases i with
    | event ev => cases ev <;> exact .inr ⟨_, db, rfl, rfl⟩
    | timeout => exact .inr ⟨_, db, rfl, rfl⟩
    | disconnected attempt =>
      exact flushes attempt (fun w => { w with phase := .returned }) fun _ _ => rfl
    | _ => exact .inl ⟨rfl, rfl⟩
  | draining =>
    cases i with
    | event ev => cases ev <;> exact .inr ⟨_, db, rfl, rfl⟩
    | drained => exact .inr ⟨_, db, rfl, rfl⟩
    | disconnected attempt =>
      exact flushes attempt (fun w => { w with phase := .returned }) fun _ _ => rfl
    | _ => exact .inl ⟨rfl, rfl⟩
  | checking =>
    cases i with
    | check now after attempt =>
      by_cases due : now - lastFlush ≥ flushInterval ∨ shares.length ≥ 1000
      · simp only [Worker.step, Worker.attempts, if_pos due]
        exact flushes attempt (fun w => { w with lastFlush := after, phase := .waiting })
          fun _ _ => rfl
      · simp only [Worker.step, Worker.attempts, if_neg due]
        exact .inr ⟨_, db, rfl, rfl⟩
    | _ => exact .inl ⟨rfl, rfl⟩
  | returned => cases i <;> exact .inl ⟨rfl, rfl⟩

private theorem run_inStep (w : Worker) (db : Db) (inputs : List WorkerInput) :
    Worker.InStep (Execution.run Worker.step w inputs)
      (Execution.run Worker.step { w with db } inputs) := by
  induction inputs generalizing w db with
  | nil => exact .inr ⟨w, db, rfl, rfl⟩
  | cons i inputs ih =>
    rw [Execution.run_cons, Execution.run_cons]
    rcases step_inStep w db i with ⟨none_, none'⟩ | ⟨w', db', stepped, stepped'⟩
    · rw [none_, none']
      exact .inl ⟨rfl, rfl⟩
    · rw [stepped, stepped']
      exact ih w' db'

private theorem settles_withDb (w : Worker) (db : Db) (i : WorkerInput) :
    ({ w with db } : Worker).settles i = w.settles i := by cases i <;> rfl

private theorem durable_withDb (w : Worker) (db : Db) (done pending : List DbEvent)
    (inputs : List WorkerInput) :
    ({ w with db } : Worker).durable done pending inputs = w.durable done pending inputs := by
  induction inputs generalizing w db done pending with
  | nil => rfl
  | cons i inputs ih =>
    rw [Worker.durable, Worker.durable, settles_withDb]
    rcases step_inStep w db i with ⟨none_, none'⟩ | ⟨w', db', stepped, stepped'⟩
    · rw [none_, none']
    · rw [stepped, stepped']
      simp only [ih]

/-! ### Durable events -/

/-- What was received is durable, or came since: the tables and the batches say so, and the
worker goes on from there. -/
private theorem durable_run (keeps : w.Keeps (prior ++ done) pending)
    (ran : Execution.run Worker.step w inputs = some w') :
    ∃ pending', w'.Keeps (prior ++ w.durable done pending inputs) pending' ∧
      w.durable done pending inputs ++ pending' = done ++ pending ++ eventsOf inputs ∧
      ∀ later, w.durable done pending (inputs ++ later) =
        w'.durable (w.durable done pending inputs) pending' later := by
  induction inputs generalizing w done pending with
  | nil =>
    cases ran
    exact ⟨pending, keeps, by simp [Worker.durable, eventsOf], fun _ => rfl⟩
  | cons i inputs ih =>
    rw [Execution.run_cons, Option.bind_eq_some_iff] at ran
    obtain ⟨w₁, stepped, ran⟩ := ran
    have events : eventsOf (i :: inputs) = i.event?.toList ++ eventsOf inputs := by
      cases brings : i.event? <;> simp [eventsOf, brings]
    simp only [List.cons_append, Worker.durable, stepped, events]
    rcases step_keeps keeps stepped with ⟨ev, brings, idle, keeps'⟩ |
      ⟨brings, ⟨attempt, attempted, commits, keeps'⟩ | ⟨fails, keeps'⟩⟩
    · have settles : w.settles i = false := by simp [Worker.settles, idle]
      obtain ⟨pending', kept, all, later⟩ := ih keeps' ran
      simp only [settles, brings, Option.toList_some, Bool.false_eq_true, if_false]
      exact ⟨pending', kept, by rw [all]; simp, later⟩
    · have settles : w.settles i = true := by simp [Worker.settles, attempted, commits]
      rw [List.append_assoc] at keeps'
      obtain ⟨pending', kept, all, later⟩ := ih keeps' ran
      simp only [settles, brings, Option.toList_none, if_true]
      exact ⟨pending', kept, by rw [all]; simp, later⟩
    · have settles : w.settles i = false := by
        cases attempted : w.attempts i with
        | none => simp [Worker.settles, attempted]
        | some attempt => simp [Worker.settles, attempted, fails attempt attempted]
      obtain ⟨pending', kept, all, later⟩ := ih keeps' ran
      simp only [settles, brings, Option.toList_none, Bool.false_eq_true, if_false,
        List.append_nil]
      exact ⟨pending', kept, by rw [all]; simp, later⟩

private theorem prefix_durable (w : Worker) (done pending : List DbEvent)
    (inputs : List WorkerInput) : done <+: w.durable done pending inputs := by
  induction inputs generalizing w done pending with
  | nil => exact List.prefix_refl _
  | cons i inputs ih =>
    rw [Worker.durable]
    split
    · exact List.prefix_refl _
    · split
      · exact (List.prefix_append _ _).trans (ih _ _ _)
      · exact ih _ _ _

/-! ### Replay -/

/-- The commits of a lifetime. -/
def Lifetime.journal (l : Lifetime) : List Commit := (Worker.new l.start).journal l.inputs

private theorem journal_withDb (w : Worker) (db : Db) (inputs : List WorkerInput) :
    ({ w with db } : Worker).journal inputs = w.journal inputs := by
  induction inputs generalizing w db with
  | nil => rfl
  | cons i inputs ih =>
    have same : ({ w with db } : Worker).commit? i = w.commit? i := by cases i <;> rfl
    simp only [Worker.journal, Execution.outputs] at ih ⊢
    rcases step_inStep w db i with ⟨none_, none'⟩ | ⟨w', db', stepped, stepped'⟩
    · rw [none_, none']
    · simp only [stepped, stepped', same, ih]

theorem Db.live_replay {db' : Db} {l : Lifetime} (lived : db.live l = some db') :
    db' = l.journal.foldl Db.apply db ∧ ∀ c ∈ l.journal, c.Balanced := by
  obtain ⟨w, ran, rfl⟩ := Option.map_eq_some_iff.mp lived
  have same : l.journal = (Worker.opened db l.start).journal l.inputs :=
    (journal_withDb _ db l.inputs).symm
  rw [same]
  refine (Execution.run_outputs _ (fun past (w : Worker) => w.WindowsMatch ∧
    w.db = past.foldl Db.apply db ∧ ∀ c ∈ past, c.Balanced) ?_ ⟨fun _ => rfl, rfl, nofun⟩ ran).2
  rintro past w i w' ⟨holds, replayed, balanced⟩ stepped
  obtain ⟨holds', replayed', balanced'⟩ := Worker.step_commits holds stepped
  refine ⟨holds', ?_, ?_⟩
  · rw [List.foldl_append, ← replayed, replayed']
  · intro c member
    rcases List.mem_append.mp member with old | new
    · exact balanced c old
    · exact balanced' c (Option.mem_toList.mp new)

/-- The tables are the replay of all commits. -/
theorem Db.lifetimes_replay (lived : Db.after lifetimes = some db) :
    db = (lifetimes.flatMap Lifetime.journal).foldl Db.apply Db.empty ∧
      ∀ c ∈ lifetimes.flatMap Lifetime.journal, c.Balanced := by
  refine Execution.run_history (fun past db =>
    db = (past.flatMap Lifetime.journal).foldl Db.apply Db.empty ∧
      ∀ c ∈ past.flatMap Lifetime.journal, c.Balanced) ?_ ⟨rfl, nofun⟩ lived
  rintro past db l db' ⟨replayed, balanced⟩ lived
  obtain ⟨replayed', balanced'⟩ := live_replay lived
  rw [List.flatMap_append, List.flatMap_singleton]
  refine ⟨?_, ?_⟩
  · rw [List.foldl_append, ← replayed, replayed']
  · intro c member
    rcases List.mem_append.mp member with old | new
    · exact balanced c old
    · exact balanced' c new

/-! ### Main result -/

/-- What is durable of a lifetime: the first of its events, and at least those before every
flush that commits. -/
structure Lifetime.Kept (l : Lifetime) : Prop where
  part : l.durable <+: eventsOf l.inputs
  settled : ∀ before i after w, l.inputs = before ++ i :: after →
    Execution.run Worker.step (.new l.start) before = some w → w.settles i = true →
    eventsOf before <+: l.durable

private theorem keeps_opened (tables : db.ledger = Ledger.of prior) (start : Nat) :
    (Worker.opened db start).Keeps (prior ++ []) [] := by
  obtain ⟨_, shareBatch, minerBatch, windows, known⟩ := Worker.keeps_new start
  exact ⟨(List.append_nil prior).symm ▸ tables, shareBatch, minerBatch, windows, known⟩

/-- A lifetime on tables that say what earlier events are worth. -/
theorem Db.live_ledger {db' : Db} {l : Lifetime} (tables : db.ledger = Ledger.of prior)
    (lived : db.live l = some db') : db'.ledger = Ledger.of (prior ++ l.durable) ∧ l.Kept := by
  obtain ⟨w, ran, rfl⟩ := Option.map_eq_some_iff.mp lived
  have keeps := keeps_opened tables l.start
  have same (inputs : List WorkerInput) : (Worker.opened db l.start).durable [] [] inputs =
      (Worker.new l.start).durable [] [] inputs := durable_withDb _ _ _ _ _
  obtain ⟨pending, kept, all, _⟩ := durable_run keeps ran
  rw [same] at kept all
  refine ⟨kept.tables, ⟨pending, all⟩, ?_⟩
  intro before i after v split reached settles
  -- the flush was made on these tables, too
  rw [split, Execution.run_append] at ran
  rcases run_inStep (Worker.new l.start) db before with ⟨none_, _⟩ | ⟨v', db₁, reached', there⟩
  · rw [reached] at none_
    cases none_
  rw [reached, Option.some.injEq] at reached'
  subst reached'
  obtain ⟨pending', _, all', later⟩ := durable_run keeps there
  rw [Worker.opened] at ran
  rw [there, Option.bind_some, Execution.run_cons, Option.bind_eq_some_iff] at ran
  obtain ⟨v₁, stepped, _⟩ := ran
  have events : eventsOf before = (Worker.opened db l.start).durable [] [] before ++ pending' :=
    all'.symm
  rw [Lifetime.durable, split, ← same, later, Worker.durable, stepped, settles_withDb, settles,
    events]
  exact prefix_durable _ _ _ _

/-- However the lifetimes end, the tables say what the events are worth that were received
before the last commit of each: nothing of a batch is there in part, or twice. -/
theorem Db.lifetimes_ledger (lived : Db.after lifetimes = some db) :
    db.ledger = Ledger.of (lifetimes.flatMap Lifetime.durable) ∧ ∀ l ∈ lifetimes, l.Kept := by
  refine Execution.run_history (fun past (db : Db) =>
    db.ledger = Ledger.of (past.flatMap Lifetime.durable) ∧ ∀ l ∈ past, l.Kept) ?_ ?_ lived
  · rintro past db l db' ⟨tables, kept⟩ lived
    obtain ⟨tables', kept'⟩ := live_ledger tables lived
    refine ⟨?_, ?_⟩
    · rw [List.flatMap_append, List.flatMap_singleton]
      exact tables'
    · intro l' member
      rcases List.mem_append.mp member with old | new
      · exact kept l' old
      · rw [List.mem_singleton.mp new]
        exact kept'
  · exact ⟨(Worker.keeps_new 0).tables, nofun⟩

/-- A share that is flushed, and in the next lifetime one that is not. -/
def killedLifetimes : List Lifetime :=
  [⟨0, minuteInputs ++ [.check 60000 60001 ⟨61, [("miner", 1)], false⟩]⟩, ⟨0, minuteInputs⟩]

theorem lifetimes_ledger_killed : ∃ db, Db.after killedLifetimes = some db ∧
    db.shares.length = 1 ∧
    db.ledger = Ledger.of (killedLifetimes.flatMap Lifetime.durable) := by
  have runs : (Db.after killedLifetimes).any (fun db => decide (db.shares.length = 1)) = true := by
    decide +kernel
  obtain ⟨db, lived, one⟩ := Execution.exists_of_any runs
  exact ⟨db, lived, one, (Db.lifetimes_ledger lived).1⟩

end MiningPool
