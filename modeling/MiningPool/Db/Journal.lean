import Mathlib.Algebra.Order.BigOperators.Group.List
import MiningPool.Db.Accounting

/-!
# The journal of the worker

The flushes that commit in a run, in order, each with the batch it wrote and the time it
was made at. The tables are the replay of the journal, and each commit has one window for
every address with a share in its batch.
-/

namespace MiningPool

/-! ### Commits -/

/-- A transaction that commits. -/
structure Commit where
  nowSecs : Int
  shares : List ShareEvent
  miners : List (String × Int)
  windows : List (String × ℚ)

def Commit.minuteTs (c : Commit) : Int := floorMinute c.nowSecs

/-- What an address has in the batch. -/
def Commit.difficulty (c : Commit) (address : String) : ℚ :=
  difficultySum (sharesBy address c.shares)

/-- The batch has a share of the address. -/
def Commit.credits (c : Commit) (address : String) : Bool :=
  c.shares.any fun s => s.minerAddress = address

/-- One window for each address with a share in the batch, and its difficulty in it. -/
structure Commit.Balanced (c : Commit) : Prop where
  unique : (c.windows.map Prod.fst).Nodup
  entries : ∀ address d, (address, d) ∈ c.windows ↔
    c.credits address = true ∧ d = c.difficulty address

def Db.apply (db : Db) (c : Commit) : Db := flushInner db c.shares c.miners c.windows c.minuteTs

/-! ### What a commit adds -/

/-- The active minutes of an address; without a row, none. -/
def Db.activeMinutes (db : Db) (address : String) : Nat :=
  (db.epochStats.get? address).elim 0 EpochStats.activeMinutes

/-- A row of `minute_hashrates` was written under the key. It may have been pruned since. -/
def Db.Written (db : Db) (key : String × Int) : Prop :=
  key ∈ db.minuteHashrates.keys ∨ key ∈ db.pruned.map Prod.fst

private theorem insertShares_activeMinutes (db : Db) (shares : List ShareEvent)
    (address : String) :
    (shares.foldl Db.insertShare db).activeMinutes address = db.activeMinutes address := by
  induction shares generalizing db with
  | nil => rfl
  | cons s shares ih =>
    refine (ih (db.insertShare s)).trans ?_
    rw [Db.activeMinutes, Db.insertShare, KeyedTable.get?_upsert, Db.activeMinutes]
    split
    next own =>
      rw [own]
      cases db.epochStats.get? s.minerAddress <;> rfl
    next => rfl

private theorem insertWindows_adds (minuteTs : Int) (db : Db) (windows : List (String × ℚ)) :
    let db' := windows.foldl (Db.insertWindow minuteTs) db
    db'.shares = db.shares ∧ db'.pruned = db.pruned ∧
      (∀ key, key ∈ db'.minuteHashrates.keys ↔ key ∈ db.minuteHashrates.keys ∨
        key.2 = minuteTs ∧ key.1 ∈ windows.map Prod.fst) ∧
      ∀ address, db'.activeMinutes address =
        db.activeMinutes address + (windows.map Prod.fst).count address := by
  induction windows generalizing db with
  | nil => simp
  | cons w windows ih =>
    obtain ⟨shares, pruned, keys, active⟩ := ih (db.insertWindow minuteTs w)
    refine ⟨shares, pruned, fun key => (keys key).trans ?_,
      fun address => (active address).trans ?_⟩
    · rw [Db.insertWindow, KeyedTable.mem_keys_upsert, Prod.ext_iff, List.map_cons, List.mem_cons]
      tauto
    · rw [List.map_cons, List.count_cons, Db.activeMinutes, Db.insertWindow,
        KeyedTable.get?_upsert, Db.activeMinutes]
      by_cases own : address = w.1
      · subst own
        cases db.epochStats.get? w.1 with
        | none => simp [Nat.add_comm]
        | some row => simp [Nat.add_assoc, Nat.add_comm]
      · simp [own, Ne.symm own]

/-- Pruning deletes only rows older than the cutoff, and keeps what was written. -/
private theorem prune_written (cutoff : Int) (db : Db) (key : String × Int) :
    (db.prune cutoff).Written key ↔ db.Written key := by
  simp only [Db.Written, Db.prune, KeyedTable.keys, KeyedTable.filter, List.map_append,
    List.mem_append, List.mem_map, List.mem_filter, Bool.not_eq_true', decide_eq_false_iff_not,
    decide_eq_true_eq]
  constructor
  · rintro (⟨row, ⟨member, _⟩, same⟩ | ⟨row, member, same⟩ | ⟨row, ⟨member, _⟩, same⟩)
    · exact .inl ⟨row, member, same⟩
    · exact .inr ⟨row, member, same⟩
    · exact .inl ⟨row, member, same⟩
  · rintro (⟨row, member, same⟩ | pruned)
    · by_cases old : row.1.2 < cutoff
      · exact .inr (.inr ⟨row, ⟨member, old⟩, same⟩)
      · exact .inl ⟨row, ⟨member, old⟩, same⟩
    · exact .inr (.inl pruned)

namespace Commit

variable {c : Commit} {db db₁ : Db}

/-- `db₁` are the tables after the three loops of a commit, before the pruning. -/
structure Adds (c : Commit) (db db₁ : Db) : Prop where
  shares : db₁.shares = db.shares ++ c.shares
  pruned : db₁.pruned = db.pruned
  keys : ∀ key, key ∈ db₁.minuteHashrates.keys ↔
    key ∈ db.minuteHashrates.keys ∨ key.2 = c.minuteTs ∧ key.1 ∈ c.windows.map Prod.fst
  activeMinutes : ∀ address, db₁.activeMinutes address =
    db.activeMinutes address + (c.windows.map Prod.fst).count address

/-- A commit adds its batch to the tables, then it prunes them. -/
theorem apply_adds (c : Commit) (db : Db) :
    ∃ db₁, db.apply c = db₁.prune (c.minuteTs - minuteRetentionSecs) ∧ c.Adds db db₁ := by
  obtain ⟨table, miners⟩ := insertMiners_same db c.miners
  obtain ⟨shares, _, minutes, pruned⟩ :=
    insertShares_frame { db with miners := table } c.shares
  obtain ⟨shares', pruned', keys, active⟩ := insertWindows_adds c.minuteTs
    (c.shares.foldl Db.insertShare { db with miners := table }) c.windows
  refine ⟨_, by rw [Db.apply, flushInner, miners], shares'.trans shares, pruned'.trans pruned,
    ?_, ?_⟩
  · intro key
    rw [keys, minutes]
  · intro address
    rw [active, insertShares_activeMinutes]
    rfl

theorem Balanced.mem_windows (balanced : c.Balanced) (address : String) :
    address ∈ c.windows.map Prod.fst ↔ c.credits address = true := by
  rw [List.mem_map]
  constructor
  · rintro ⟨⟨address, d⟩, member, rfl⟩
    exact ((balanced.entries address d).mp member).1
  · intro credited
    exact ⟨(address, c.difficulty address), (balanced.entries _ _).mpr ⟨credited, rfl⟩, rfl⟩

theorem apply_shares : (db.apply c).shares = db.shares ++ c.shares := by
  obtain ⟨db₁, applied, adds⟩ := c.apply_adds db
  rw [applied]
  exact adds.shares

theorem apply_pruned (row : (String × Int) × ℚ) (member : row ∈ (db.apply c).pruned) :
    row ∈ db.pruned ∨ row.1.2 < c.minuteTs - minuteRetentionSecs := by
  obtain ⟨db₁, applied, adds⟩ := c.apply_adds db
  rw [applied, Db.prune] at member
  rcases List.mem_append.mp member with kept | deleted
  · rw [adds.pruned] at kept
    exact .inl kept
  · exact .inr (of_decide_eq_true (List.mem_filter.mp deleted).2)

theorem Balanced.apply_written (balanced : c.Balanced) (key : String × Int) :
    (db.apply c).Written key ↔ db.Written key ∨ key.2 = c.minuteTs ∧ c.credits key.1 = true := by
  obtain ⟨db₁, applied, adds⟩ := c.apply_adds db
  rw [applied, prune_written, Db.Written, adds.keys, adds.pruned, balanced.mem_windows,
    Db.Written, or_right_comm]

/-- Each commit that credits an address gives it one active minute. -/
theorem Balanced.apply_activeMinutes (balanced : c.Balanced) (address : String) :
    (db.apply c).activeMinutes address =
      db.activeMinutes address + if c.credits address then 1 else 0 := by
  obtain ⟨db₁, applied, adds⟩ := c.apply_adds db
  rw [applied]
  refine (adds.activeMinutes address).trans ?_
  rw [List.Nodup.count balanced.unique]
  simp only [balanced.mem_windows]

/-- Shares summed address by address. -/
private theorem sum_by_address (addresses : List String) (unique : addresses.Nodup)
    (q : String → Bool) (shares : List ShareEvent) (known : ∀ s ∈ shares,
      s.minerAddress ∈ addresses) :
    (addresses.map fun a => if q a then difficultySum (sharesBy a shares) else 0).sum =
      difficultySum (shares.filter fun s => q s.minerAddress) := by
  induction shares with
  | nil => simp [sharesBy, difficultySum]
  | cons s shares ih =>
    have rest := ih fun t member => known t (List.mem_cons_of_mem s member)
    have once : addresses.count s.minerAddress = 1 :=
      List.count_eq_one_of_mem unique (known s List.mem_cons_self)
    -- only the address of the share gets more than from the rest
    have parts : (fun a => if q a then difficultySum (sharesBy a (s :: shares)) else 0) = fun a =>
        if a = s.minerAddress then
          (if q a then s.difficulty + difficultySum (sharesBy a shares) else 0)
        else if q a then difficultySum (sharesBy a shares) else 0 := by
      funext a
      by_cases own : a = s.minerAddress
      · simp [own, sharesBy, difficultySum]
      · simp [own, Ne.symm own, sharesBy]
    rw [parts, List.sum_map_ite_eq, once, rest, one_nsmul]
    cases chosen : q s.minerAddress with
    | true => simp [chosen, difficultySum]
    | false => simp [chosen]

/-- The windows of a commit that satisfy `q` sum up the shares that do. -/
theorem Balanced.sum_windows (balanced : c.Balanced) (q : String → Bool) :
    (c.windows.map fun w => if q w.1 then w.2 else 0).sum =
      difficultySum (c.shares.filter fun s => q s.minerAddress) := by
  have known : ∀ s ∈ c.shares, s.minerAddress ∈ c.windows.map Prod.fst := by
    intro s member
    rw [balanced.mem_windows, credits, List.any_eq_true]
    exact ⟨s, member, decide_eq_true rfl⟩
  rw [← sum_by_address _ balanced.unique q _ known, List.map_map]
  congr 1
  apply List.map_congr_left
  rintro ⟨address, d⟩ member
  dsimp only [Function.comp]
  rw [((balanced.entries address d).mp member).2, difficulty]

/-- Over the addresses that satisfy `q` and the minutes that satisfy `p`, a commit adds what
its shares sum up to, if it is made in such a minute. -/
theorem Balanced.apply_weigh (balanced : c.Balanced) (q : String → Bool) (p : Int → Bool) :
    (db.apply c).weigh (fun key d => if q key.1 && p key.2 then d else 0) =
      db.weigh (fun key d => if q key.1 && p key.2 then d else 0) +
        if p c.minuteTs then difficultySum (c.shares.filter fun s => q s.minerAddress) else 0 := by
  rw [Db.apply, flushInner_weigh (addsUp_ite fun key => (q key.1 && p key.2) = true)]
  congr 1
  cases inside : p c.minuteTs with
  | false => simp [inside]
  | true =>
    rw [if_pos rfl, ← balanced.sum_windows q]
    simp only [inside, Bool.and_true]

end Commit

/-- The time at which an input reads the clock. -/
def WorkerInput.clock? : WorkerInput → Option Int
  | .disconnected attempt => some attempt.nowSecs
  | .check _ _ attempt => some attempt.nowSecs
  | _ => none

/-- The clock does not go back. -/
def ClockRuns (inputs : List WorkerInput) : Prop :=
  (inputs.filterMap WorkerInput.clock?).Pairwise (· ≤ ·)

instance (inputs : List WorkerInput) : Decidable (ClockRuns inputs) :=
  inferInstanceAs (Decidable (List.Pairwise _ _))

namespace Worker

variable {w w' : Worker} {i : WorkerInput} {start : Nat} {inputs : List WorkerInput}

/-- The commit that an input makes in a state, if it makes one. -/
def commit? (w : Worker) (i : WorkerInput) : Option Commit :=
  match w.attempts i with
  | none => none
  | some attempt =>
    if w.shareBatch.isEmpty && w.minerBatch.isEmpty && w.minuteWindows.rows.isEmpty then none
    else if attempt.fails then none
    else some ⟨attempt.nowSecs, w.shareBatch, w.minerBatch, attempt.windows⟩

/-- The commits of a run, in order. -/
def journal (w : Worker) (inputs : List WorkerInput) : List Commit :=
  Execution.outputs step (fun w i _ => (w.commit? i).toList) w inputs

/-! ### Windows -/

/-- The window map holds what the share batch sums up to. -/
def WindowsMatch (w : Worker) : Prop :=
  ∀ address, w.minuteWindows.get? address =
    if w.shareBatch.any fun s => s.minerAddress = address then
      some (difficultySum (sharesBy address w.shareBatch)) else none

private theorem sharesBy_eq_nil {address : String} {shares : List ShareEvent}
    (none : (shares.any fun s => s.minerAddress = address) = false) :
    sharesBy address shares = [] := by
  simpa [sharesBy] using none

theorem WindowsMatch.pushEvent (holds : w.WindowsMatch) (ev : DbEvent) :
    (w.pushEvent ev).WindowsMatch := by
  intro address
  cases ev with
  | minerConnected => exact holds address
  | share s =>
    change (w.minuteWindows.upsert s.minerAddress (0 + s.difficulty) (· + s.difficulty)).get?
      address = if (w.shareBatch ++ [s]).any fun s => s.minerAddress = address then
        some (difficultySum (sharesBy address (w.shareBatch ++ [s]))) else none
    rw [KeyedTable.get?_upsert, holds s.minerAddress, holds address, List.any_append,
      sharesBy_append, difficultySum_append]
    by_cases own : address = s.minerAddress
    · subst own
      have one : difficultySum (sharesBy s.minerAddress [s]) = s.difficulty := by
        simp [sharesBy, difficultySum]
      rw [one]
      cases known : w.shareBatch.any fun t => t.minerAddress = s.minerAddress with
      | true => simp
      | false => simp [sharesBy_eq_nil known, difficultySum]
    · simp [sharesBy, own, Ne.symm own, difficultySum]

theorem WindowsMatch.balanced (holds : w.WindowsMatch) {attempt : Attempt}
    (walks : w.Walks attempt) :
    (Commit.mk attempt.nowSecs w.shareBatch w.minerBatch attempt.windows).Balanced where
  unique := (walks.map Prod.fst).nodup_iff.mpr w.minuteWindows.unique
  entries := by
    intro address d
    rw [walks.mem_iff, ← KeyedTable.get?_eq_some_iff, holds address, Commit.credits]
    dsimp only
    split
    next known =>
      rw [known, Option.some.injEq, eq_comm]
      exact (and_iff_right rfl).symm
    next unknown => simp only [unknown, reduceCtorEq, Bool.false_eq_true, false_and]

/-- A flush either commits a batch, which is written to the tables and cleared, or leaves
the worker as it is. -/
private theorem flush_commit {attempt : Attempt} (attempted : w.attempts i = some attempt) :
    (w.commit? i = none ∧ w.flush attempt = w) ∨
      ∃ c, w.commit? i = some c ∧
        c = ⟨attempt.nowSecs, w.shareBatch, w.minerBatch, attempt.windows⟩ ∧
        w.flush attempt = { w with
          db := w.db.apply c
          shareBatch := []
          minerBatch := []
          minuteWindows := KeyedTable.empty } := by
  simp only [commit?, attempted, flush]
  split
  · exact .inl ⟨rfl, rfl⟩
  split
  · exact .inl ⟨rfl, rfl⟩
  · exact .inr ⟨_, rfl, rfl, rfl⟩

/-- A step replays its commit on the tables, and the window map goes on matching. -/
theorem step_commits (holds : w.WindowsMatch) (stepped : w.step i = some w') :
    w'.WindowsMatch ∧ w'.db = (w.commit? i).toList.foldl Db.apply w.db ∧
      ∀ c ∈ w.commit? i, c.Balanced := by
  rcases step_cases stepped with ⟨ev, phase, brings, idle, rfl⟩ |
    ⟨_, ⟨phase, idle, rfl⟩ | ⟨attempt, lastFlush, phase, attempted, walks, rfl⟩⟩
  · have nothing : w.commit? i = none := by simp only [commit?, idle]
    have kept : (w.pushEvent ev).db = w.db := by cases ev <;> rfl
    simp only [nothing]
    exact ⟨holds.pushEvent ev, kept, fun _ member => by cases member⟩
  · have nothing : w.commit? i = none := by simp only [commit?, idle]
    simp only [nothing]
    exact ⟨holds, rfl, fun _ member => by cases member⟩
  rcases flush_commit attempted with ⟨nothing, same⟩ | ⟨c, committed, rfl, flushed⟩
  · rw [nothing, same]
    exact ⟨holds, rfl, fun _ member => by cases member⟩
  · rw [committed, flushed]
    refine ⟨fun _ => rfl, rfl, ?_⟩
    rintro c ⟨⟩
    exact holds.balanced walks

/-! ### Replay -/

/-- What holds of empty tables, and is kept by every balanced commit, holds of the journal
and the tables of every run. -/
theorem journal_induction (inv : List Commit → Db → Prop) (init : inv [] Db.empty)
    (keep : ∀ past db c, inv past db → c.Balanced → inv (past ++ [c]) (db.apply c)) {w : Worker}
    (ran : Execution.run step (new start) inputs = some w) :
    inv (journal (new start) inputs) w.db := by
  refine (Execution.run_outputs _ (fun past (w : Worker) => w.WindowsMatch ∧ inv past w.db) ?_
    ⟨fun _ => rfl, init⟩ ran).2
  rintro past w i w' ⟨holds, before⟩ stepped
  obtain ⟨holds', replayed, balanced⟩ := step_commits holds stepped
  refine ⟨holds', ?_⟩
  rw [replayed]
  cases committed : w.commit? i with
  | none => simpa using before
  | some c => exact keep past w.db c before (balanced c committed)

theorem run_windowsMatch {w : Worker} (ran : Execution.run step (new start) inputs = some w) :
    w.WindowsMatch :=
  Execution.run_invariant WindowsMatch (fun _ _ _ holds stepped => (step_commits holds stepped).1)
    (fun _ => rfl) ran

theorem shares_eq {w : Worker} (ran : Execution.run step (new start) inputs = some w) :
    w.db.shares = (journal (new start) inputs).flatMap Commit.shares := by
  refine journal_induction (fun past db => db.shares = past.flatMap Commit.shares) rfl ?_ ran
  intro past db c before _
  rw [Commit.apply_shares, before, List.flatMap_append, List.flatMap_singleton]

/-- The minutes written for an address are those of the commits that credit it. -/
theorem written_iff {w : Worker} (ran : Execution.run step (new start) inputs = some w)
    (key : String × Int) : w.db.Written key ↔
      ∃ c ∈ journal (new start) inputs, key.2 = c.minuteTs ∧ c.credits key.1 = true := by
  refine journal_induction (fun past db => db.Written key ↔
    ∃ c ∈ past, key.2 = c.minuteTs ∧ c.credits key.1 = true) ?_ ?_ ran
  · simp [Db.Written, Db.empty]
  · intro past db c before balanced
    rw [balanced.apply_written, before]
    simp only [List.mem_append, List.mem_singleton, or_and_right, exists_or, exists_eq_left]

theorem activeMinutes_eq {w : Worker} (ran : Execution.run step (new start) inputs = some w)
    (address : String) : w.db.activeMinutes address =
      (journal (new start) inputs).countP (Commit.credits · address) := by
  refine journal_induction (fun past db =>
    db.activeMinutes address = past.countP (Commit.credits · address)) rfl ?_ ran
  intro past db c before balanced
  rw [balanced.apply_activeMinutes, before, List.countP_append, List.countP_singleton]

/-- The difficulty under the addresses that satisfy `q` and the minutes that satisfy `p`. -/
theorem weigh_eq {w : Worker} (ran : Execution.run step (new start) inputs = some w)
    (q : String → Bool) (p : Int → Bool) :
    w.db.weigh (fun key d => if q key.1 && p key.2 then d else 0) =
      difficultySum ((((journal (new start) inputs).filter fun c => p c.minuteTs).flatMap
        Commit.shares).filter fun s => q s.minerAddress) := by
  refine journal_induction (fun past db =>
    db.weigh (fun key d => if q key.1 && p key.2 then d else 0) =
      difficultySum (((past.filter fun c => p c.minuteTs).flatMap Commit.shares).filter
        fun s => q s.minerAddress)) (add_zero 0) ?_ ran
  intro past db c before balanced
  rw [balanced.apply_weigh, before, List.filter_append, List.flatMap_append, List.filter_append,
    difficultySum_append]
  congr 1
  cases inside : p c.minuteTs with
  | false => simp [inside, difficultySum]
  | true => simp [inside]

/-- Only rows a day older than some commit are deleted. -/
theorem pruned_old {w : Worker} (ran : Execution.run step (new start) inputs = some w) :
    ∀ row ∈ w.db.pruned, ∃ c ∈ journal (new start) inputs,
      row.1.2 < c.minuteTs - minuteRetentionSecs := by
  refine journal_induction (fun past db => ∀ row ∈ db.pruned, ∃ c ∈ past,
    row.1.2 < c.minuteTs - minuteRetentionSecs) (fun _ member => by cases member) ?_ ran
  intro past db c before _ row member
  rcases Commit.apply_pruned row member with old | new
  · obtain ⟨d, earlier, bound⟩ := before row old
    exact ⟨d, List.mem_append_left _ earlier, bound⟩
  · exact ⟨c, List.mem_append_right _ List.mem_cons_self, new⟩

end Worker

end MiningPool
