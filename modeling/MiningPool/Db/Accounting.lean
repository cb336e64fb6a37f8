import Mathlib.Algebra.Order.Ring.Rat
import Mathlib.Data.List.MinMax
import MiningPool.Db.Worker

/-!
# Share accounting

What the tables should say about a sequence of events, told from the events alone, and
the proof that every committed flush makes the tables say just that, whatever the
batches were and whatever flushes failed before.
-/

namespace MiningPool

/-! ### The ledger -/

/-- The shares among some events, in order. -/
def sharesOf (events : List DbEvent) : List ShareEvent :=
  events.filterMap fun
    | .share s => some s
    | .minerConnected .. => none

theorem mem_sharesOf {events : List DbEvent} {s : ShareEvent} :
    s ∈ sharesOf events ↔ .share s ∈ events := by
  rw [sharesOf, List.mem_filterMap]
  constructor
  · rintro ⟨ev, member, eq⟩
    cases ev with
    | share => exact Option.some.inj eq ▸ member
    | minerConnected => cases eq
  · intro member
    exact ⟨.share s, member, rfl⟩

/-- The connections among some events, in order. -/
def connectionsOf (events : List DbEvent) : List (String × Int) :=
  events.filterMap fun
    | .share _ => none
    | .minerConnected address timestamp => some (address, timestamp)

def sharesBy (address : String) (shares : List ShareEvent) : List ShareEvent :=
  shares.filter fun s => s.minerAddress = address

def difficultySum (shares : List ShareEvent) : ℚ := (shares.map ShareEvent.difficulty).sum

/-- The first of the hashes that are least as big-endian numbers. -/
def leastHash (shares : List ShareEvent) : Option (Bytes 32) :=
  (shares.map ShareEvent.blockHashBe).argmin fun hash => Bytes.ofBE hash.data

/-- The account of a miner: how many shares, of what difficulty, and the best of them. -/
structure Account where
  sharesCount : Nat
  totalDifficulty : ℚ
  bestShareHash : Option (Bytes 32)

/-- A miner without shares has no account. -/
def Account.of (shares : List ShareEvent) : Option Account :=
  if shares = [] then none
  else some ⟨shares.length, difficultySum shares, leastHash shares⟩

structure Ledger where
  shares : List ShareEvent
  account : String → Option Account
  minuteDifficulty : String → ℚ
  firstSeen : String → Option Int

/-- What the events are worth. -/
def Ledger.of (events : List DbEvent) : Ledger where
  shares := sharesOf events
  account address := Account.of (sharesBy address (sharesOf events))
  minuteDifficulty address := difficultySum (sharesBy address (sharesOf events))
  firstSeen address := (connectionsOf events).lookup address

/-- The difficulty ever added to `minute_hashrates` for an address, pruned rows included. -/
def Db.minuteDifficulty (db : Db) (address : String) : ℚ :=
  db.minuteHashrates.total (fun key d => if key.1 = address then d else 0) +
    (db.pruned.map fun row => if row.1.1 = address then row.2 else 0).sum

def Db.account (db : Db) (address : String) : Option Account :=
  (db.epochStats.get? address).map fun row =>
    ⟨row.sharesCount, row.totalDifficulty, row.bestShareHash⟩

/-- What the tables say. -/
def Db.ledger (db : Db) : Ledger where
  shares := db.shares
  account := db.account
  minuteDifficulty := db.minuteDifficulty
  firstSeen := db.miners.get?

/-! ### Shares -/

private theorem argmin_append_least (hashes : List (Bytes 32)) (hash : Bytes 32) :
    (hashes ++ [hash]).argmin (fun h => Bytes.ofBE h.data) =
      some (Db.betterHash (hashes.argmin fun h => Bytes.ofBE h.data) hash) := by
  rw [List.argmin_concat]
  cases hashes.argmin fun h => Bytes.ofBE h.data with
  | none => rfl
  | some best =>
    have lower := Bytes.lt_iff_ofBE_lt (hash.size.trans best.size.symm)
    simp only [Db.betterHash, lower]
    split <;> rfl

/-- The account once another share came. -/
private theorem account_append (shares : List ShareEvent) (s : ShareEvent) :
    Account.of (shares ++ [s]) = some
      ((Account.of shares).elim ⟨1, s.difficulty, some s.blockHashBe⟩ fun a =>
        ⟨a.sharesCount + 1, a.totalDifficulty + s.difficulty,
          some (Db.betterHash a.bestShareHash s.blockHashBe)⟩) := by
  have nonempty : shares ++ [s] ≠ [] := by simp
  rw [Account.of, if_neg nonempty, difficultySum, leastHash, List.map_append, List.map_append,
    List.map_singleton, List.map_singleton, argmin_append_least, List.sum_append,
    List.sum_singleton, List.length_append, List.length_singleton]
  by_cases none : shares = []
  · subst none
    simp [Account.of, Db.betterHash]
  · rw [Account.of, if_neg none]
    rfl

private theorem account_insertShare (db : Db) (s : ShareEvent) (address : String) :
    (db.insertShare s).account address =
      if address = s.minerAddress then some
        ((db.account address).elim ⟨1, s.difficulty, some s.blockHashBe⟩ fun a =>
          ⟨a.sharesCount + 1, a.totalDifficulty + s.difficulty,
            some (Db.betterHash a.bestShareHash s.blockHashBe)⟩)
      else db.account address := by
  rw [Db.account, Db.insertShare, KeyedTable.get?_upsert, Db.account]
  split
  next same =>
    subst same
    cases db.epochStats.get? s.minerAddress <;> rfl
  · rfl

theorem sharesBy_append (address : String) (shares later : List ShareEvent) :
    sharesBy address (shares ++ later) = sharesBy address shares ++ sharesBy address later :=
  List.filter_append ..

theorem difficultySum_append (shares later : List ShareEvent) :
    difficultySum (shares ++ later) = difficultySum shares + difficultySum later := by
  rw [difficultySum, List.map_append, List.sum_append]
  rfl

/-- Accounts after the share statements of a batch. -/
private theorem account_insertShares (db : Db) (shares batch : List ShareEvent) (address : String)
    (before : db.account address = Account.of (sharesBy address shares)) :
    (batch.foldl Db.insertShare db).account address =
      Account.of (sharesBy address (shares ++ batch)) := by
  induction batch generalizing db shares with
  | nil => rw [List.foldl_nil, List.append_nil, before]
  | cons s batch ih =>
    rw [List.foldl_cons, List.append_cons]
    apply ih
    rw [account_insertShare, sharesBy_append, before]
    by_cases own : address = s.minerAddress
    · have one : sharesBy address [s] = [s] := by simp [sharesBy, own]
      rw [if_pos own, one, account_append]
    · have none : sharesBy address [s] = [] := by simp [sharesBy, Ne.symm own]
      rw [if_neg own, none, List.append_nil]

/-- The share statements touch shares and accounts only. -/
theorem insertShares_frame (db : Db) (batch : List ShareEvent) :
    (batch.foldl Db.insertShare db).shares = db.shares ++ batch ∧
      (batch.foldl Db.insertShare db).miners = db.miners ∧
      (batch.foldl Db.insertShare db).minuteHashrates = db.minuteHashrates ∧
      (batch.foldl Db.insertShare db).pruned = db.pruned := by
  induction batch generalizing db with
  | nil => simp
  | cons s batch ih =>
    obtain ⟨shares, miners, minutes, pruned⟩ := ih (db.insertShare s)
    rw [List.foldl_cons, shares, miners, minutes, pruned]
    exact ⟨by simp [Db.insertShare], rfl, rfl, rfl⟩

/-! ### Miners -/

private theorem lookup_append (first later : List (String × Int)) (address : String) :
    (first ++ later).lookup address = (first.lookup address).or (later.lookup address) := by
  induction first with
  | nil => rfl
  | cons m first ih =>
    obtain ⟨key, timestamp⟩ := m
    rw [List.cons_append, List.lookup_cons, List.lookup_cons, ih]
    cases address == key <;> rfl

/-- The miner statements keep the first timestamp of each address. -/
private theorem insertMiners_get? (db : Db) (batch : List (String × Int)) (address : String) :
    (batch.foldl Db.insertMiner db).miners.get? address =
      (db.miners.get? address).or (batch.lookup address) := by
  induction batch generalizing db with
  | nil => simp
  | cons m batch ih =>
    obtain ⟨key, timestamp⟩ := m
    rw [List.foldl_cons, ih, Db.insertMiner, KeyedTable.get?_insertOrIgnore, List.lookup_cons]
    by_cases same : address = key
    · subst same
      cases db.miners.get? address <;> simp
    · simp [same, beq_false_of_ne same]

/-- The miner statements touch miners only. -/
theorem insertMiners_same (db : Db) (batch : List (String × Int)) :
    ∃ table, batch.foldl Db.insertMiner db = { db with miners := table } := by
  induction batch generalizing db with
  | nil => exact ⟨db.miners, rfl⟩
  | cons m batch ih => exact ih (db.insertMiner m)

private theorem insertMiners_frame (db : Db) (batch : List (String × Int)) :
    (batch.foldl Db.insertMiner db).shares = db.shares ∧
      (batch.foldl Db.insertMiner db).epochStats = db.epochStats ∧
      (batch.foldl Db.insertMiner db).minuteHashrates = db.minuteHashrates ∧
      (batch.foldl Db.insertMiner db).pruned = db.pruned := by
  obtain ⟨table, same⟩ := insertMiners_same db batch
  rw [same]
  exact ⟨rfl, rfl, rfl, rfl⟩

/-! ### Minutes -/

/-- The part of some window entries that belongs to an address. -/
def windowSum (address : String) (windows : List (String × ℚ)) : ℚ :=
  (windows.map fun w => if w.1 = address then w.2 else 0).sum

/-- What the rows ever added to `minute_hashrates` weigh together, pruned rows included. -/
def Db.weigh (db : Db) (weight : String × Int → ℚ → ℚ) : ℚ :=
  db.minuteHashrates.total weight + (db.pruned.map fun row => weight row.1 row.2).sum

/-- The weight of a row is additive in its difficulty. -/
def AddsUp (weight : String × Int → ℚ → ℚ) : Prop :=
  ∀ key d e, weight key (d + e) = weight key d + weight key e

theorem addsUp_ite (p : String × Int → Prop) [DecidablePred p] :
    AddsUp fun key d => if p key then d else 0 := by
  intro key d e
  dsimp only
  split
  · rfl
  · exact (add_zero 0).symm

private theorem insertWindows_weigh {weight : String × Int → ℚ → ℚ} (adds : AddsUp weight)
    (minuteTs : Int) (windows : List (String × ℚ)) (db : Db) :
    (windows.foldl (Db.insertWindow minuteTs) db).weigh weight =
      db.weigh weight + (windows.map fun w => weight (w.1, minuteTs) w.2).sum := by
  induction windows generalizing db with
  | nil => simp
  | cons w windows ih =>
    have added := KeyedTable.total_upsert db.minuteHashrates weight (w.1, minuteTs) w.2 (· + w.2)
      (weight (w.1, minuteTs) w.2) rfl fun d => adds _ d w.2
    rw [List.foldl_cons, ih, Db.weigh, Db.insertWindow, added, Db.weigh, List.map_cons,
      List.sum_cons]
    ring

/-- Pruning moves weight from the table to what was pruned. -/
private theorem prune_weigh (weight : String × Int → ℚ → ℚ) (cutoff : Int) (db : Db) :
    (db.prune cutoff).weigh weight = db.weigh weight := by
  have moved := KeyedTable.total_filter_add db.minuteHashrates weight fun row => row.1.2 < cutoff
  rw [Db.weigh, Db.prune, List.map_append, List.sum_append, Db.weigh, ← moved, KeyedTable.total,
    KeyedTable.total]
  ring

/-- A flush adds the weight of its windows. -/
theorem flushInner_weigh {weight : String × Int → ℚ → ℚ} (adds : AddsUp weight) (db : Db)
    (shares : List ShareEvent) (miners : List (String × Int)) (windows : List (String × ℚ))
    (minuteTs : Int) : (flushInner db shares miners windows minuteTs).weigh weight =
      db.weigh weight + (windows.map fun w => weight (w.1, minuteTs) w.2).sum := by
  obtain ⟨_, _, minutes₁, pruned₁⟩ := insertMiners_frame db miners
  obtain ⟨_, _, minutes₂, pruned₂⟩ := insertShares_frame (miners.foldl Db.insertMiner db) shares
  rw [flushInner, prune_weigh, insertWindows_weigh adds, Db.weigh, minutes₂, minutes₁, pruned₂,
    pruned₁, Db.weigh]

/-- A window statement changes no account when the address has one already. -/
private theorem account_insertWindow (minuteTs : Int) (db : Db) (w : String × ℚ)
    (known : (db.account w.1).isSome) (address : String) :
    (db.insertWindow minuteTs w).account address = db.account address := by
  rw [Db.account, Db.insertWindow, KeyedTable.get?_upsert, Db.account]
  rw [Db.account, Option.isSome_map] at known
  obtain ⟨row, found⟩ := Option.isSome_iff_exists.mp known
  split
  next same =>
    rw [same, found]
    rfl
  · rfl

private theorem insertWindows_frame (minuteTs : Int) (db : Db) (windows : List (String × ℚ))
    (known : ∀ w ∈ windows, (db.account w.1).isSome) (address : String) :
    let db' := windows.foldl (Db.insertWindow minuteTs) db
    db'.shares = db.shares ∧ db'.miners = db.miners ∧ db'.account address = db.account address := by
  induction windows generalizing db with
  | nil => exact ⟨rfl, rfl, rfl⟩
  | cons w windows ih =>
    have same := account_insertWindow minuteTs db w (known w List.mem_cons_self)
    have known' : ∀ v ∈ windows, ((db.insertWindow minuteTs w).account v.1).isSome := by
      intro v member
      rw [same]
      exact known v (List.mem_cons_of_mem w member)
    obtain ⟨shares, miners, account⟩ := ih (db.insertWindow minuteTs w) known'
    exact ⟨shares, miners, account.trans (same address)⟩

/-! ### A flush -/

/-- A committed flush adds the pending events to what the tables say. -/
private theorem flushInner_ledger {db : Db} {done pending : List DbEvent}
    {windows : List (String × ℚ)} {minuteTs : Int} (before : db.ledger = Ledger.of done)
    (sums : ∀ address, windowSum address windows =
      difficultySum (sharesBy address (sharesOf pending)))
    (known : ∀ w ∈ windows, ∃ s ∈ sharesOf pending, s.minerAddress = w.1) :
    (flushInner db (sharesOf pending) (connectionsOf pending) windows minuteTs).ledger =
      Ledger.of (done ++ pending) := by
  obtain ⟨beforeShares, beforeAccount, beforeMinutes, beforeMiners⟩ := Ledger.mk.inj before
  have split : sharesOf (done ++ pending) = sharesOf done ++ sharesOf pending :=
    List.filterMap_append
  have splitConnections : connectionsOf (done ++ pending) =
      connectionsOf done ++ connectionsOf pending := List.filterMap_append
  have weighed (address : String) := flushInner_weigh (addsUp_ite fun key => key.1 = address) db
    (sharesOf pending) (connectionsOf pending) windows minuteTs
  simp only [flushInner] at weighed ⊢
  -- the three loops, one after the other
  obtain ⟨shares₁, stats₁, _, _⟩ := insertMiners_frame db (connectionsOf pending)
  have miners₁ := insertMiners_get? db (connectionsOf pending)
  generalize (connectionsOf pending).foldl Db.insertMiner db = db₁ at *
  have account₁ (address : String) :
      db₁.account address = Account.of (sharesBy address (sharesOf done)) := by
    rw [Db.account, stats₁]
    exact congrFun beforeAccount address
  obtain ⟨shares₂, miners₂, _, _⟩ := insertShares_frame db₁ (sharesOf pending)
  have account₂ (address : String) := account_insertShares db₁ (sharesOf done) (sharesOf pending)
    address (account₁ address)
  generalize (sharesOf pending).foldl Db.insertShare db₁ = db₂ at *
  have known₂ : ∀ w ∈ windows, (db₂.account w.1).isSome := by
    intro w member
    obtain ⟨s, hs, own⟩ := known w member
    have some_ : sharesBy w.1 (sharesOf done ++ sharesOf pending) ≠ [] :=
      List.ne_nil_of_mem (List.mem_filter.mpr ⟨List.mem_append_right _ hs, by simpa using own⟩)
    rw [account₂, Account.of, if_neg some_]
    rfl
  have frame₃ := insertWindows_frame minuteTs db₂ windows known₂
  generalize windows.foldl (Db.insertWindow minuteTs) db₂ = db₃ at *
  simp only [Db.ledger, Ledger.of, Ledger.mk.injEq, split, splitConnections]
  refine ⟨?_, funext fun address => ?_, funext fun address => ?_, funext fun address => ?_⟩
  · change db₃.shares = _
    rw [(frame₃ "").1, shares₂, shares₁]
    exact congrArg (· ++ sharesOf pending) beforeShares
  · change db₃.account address = _
    rw [(frame₃ address).2.2, account₂]
  · refine (weighed address).trans ?_
    rw [sharesBy_append, difficultySum_append, ← sums address]
    exact congrArg (· + _) (congrFun beforeMinutes address)
  · change db₃.miners.get? address = _
    rw [(frame₃ "").2.1, miners₂, miners₁, lookup_append]
    exact congrArg (Option.or · _) (congrFun beforeMiners address)

/-! ### The worker -/

/-- The worker's books: the tables cover the events up to some point, the batches the
events since. -/
structure Worker.Keeps (w : Worker) (done pending : List DbEvent) : Prop where
  tables : w.db.ledger = Ledger.of done
  shareBatch : w.shareBatch = sharesOf pending
  minerBatch : w.minerBatch = connectionsOf pending
  windows : ∀ address, windowSum address w.minuteWindows.rows =
    difficultySum (sharesBy address (sharesOf pending))
  known : ∀ r ∈ w.minuteWindows.rows, ∃ s ∈ sharesOf pending, s.minerAddress = r.1

theorem Worker.keeps_new (start : Nat) : (new start).Keeps [] [] where
  tables := by
    simp only [Db.ledger, Ledger.of, Ledger.mk.injEq]
    refine ⟨rfl, rfl, funext fun address => ?_, rfl⟩
    exact add_zero 0
  shareBatch := rfl
  minerBatch := rfl
  windows _ := rfl
  known := by
    intro r member
    cases member

theorem Worker.Keeps.pushEvent {w : Worker} {done pending : List DbEvent}
    (keeps : w.Keeps done pending) (ev : DbEvent) :
    (w.pushEvent ev).Keeps done (pending ++ [ev]) := by
  have split : sharesOf (pending ++ [ev]) = sharesOf pending ++ sharesOf [ev] :=
    List.filterMap_append
  have splitConnections : connectionsOf (pending ++ [ev]) =
      connectionsOf pending ++ connectionsOf [ev] := List.filterMap_append
  cases ev with
  | minerConnected address timestamp =>
    have none : sharesOf [.minerConnected address timestamp] = [] := rfl
    rw [none, List.append_nil] at split
    constructor
    case tables => exact keeps.tables
    case shareBatch => exact keeps.shareBatch.trans split.symm
    case minerBatch =>
      rw [splitConnections, ← keeps.minerBatch]
      rfl
    case windows =>
      rw [split]
      exact keeps.windows
    case known =>
      rw [split]
      exact keeps.known
  | share s =>
    have one : sharesOf [.share s] = [s] := rfl
    have none : connectionsOf [.share s] = [] := rfl
    rw [one] at split
    rw [none, List.append_nil] at splitConnections
    constructor
    case tables => exact keeps.tables
    case shareBatch =>
      rw [split, ← keeps.shareBatch]
      rfl
    case minerBatch => exact keeps.minerBatch.trans splitConnections.symm
    case windows =>
      intro address
      have added := KeyedTable.total_upsert w.minuteWindows
        (fun key d => if key = address then d else 0) s.minerAddress (0 + s.difficulty)
        (· + s.difficulty) (if s.minerAddress = address then s.difficulty else 0)
        (by rw [zero_add]) (by intro v; split <;> simp)
      refine added.trans ?_
      rw [split, sharesBy_append, difficultySum_append]
      congr 1
      · exact keeps.windows address
      · by_cases own : s.minerAddress = address <;> simp [sharesBy, own, difficultySum]
    case known =>
      intro r member
      rw [split]
      have key : r.1 ∈ (w.pushEvent (.share s)).minuteWindows.keys :=
        List.mem_map_of_mem member
      rw [Worker.pushEvent, KeyedTable.mem_keys_upsert] at key
      rcases key with old | new
      · obtain ⟨r', member', same⟩ := List.mem_map.mp old
        obtain ⟨t, ht, own⟩ := keeps.known r' member'
        exact ⟨t, List.mem_append_left _ ht, own.trans same⟩
      · exact ⟨s, List.mem_append_right _ List.mem_cons_self, new.symm⟩

private theorem no_events {events : List DbEvent} (shares : sharesOf events = [])
    (connections : connectionsOf events = []) : events = [] := by
  cases events with
  | nil => rfl
  | cons ev events => cases ev <;> simp [sharesOf, connectionsOf] at shares connections

/-- A flush that commits empties the batches and makes the tables cover every event; one
that fails changes nothing. -/
theorem Worker.Keeps.flush {w : Worker} {done pending : List DbEvent} (keeps : w.Keeps done pending)
    {attempt : Attempt} (walks : w.Walks attempt) :
    (attempt.fails = false ∧ (w.flush attempt).Keeps (done ++ pending) []) ∨
      (attempt.fails = true ∧ w.flush attempt = w) := by
  unfold Worker.flush
  split
  next idle =>
    simp only [Bool.and_eq_true, List.isEmpty_iff] at idle
    obtain ⟨⟨shares, connections⟩, _⟩ := idle
    obtain rfl : pending = [] :=
      no_events (keeps.shareBatch ▸ shares) (keeps.minerBatch ▸ connections)
    cases attempt.fails with
    | false => exact .inl ⟨rfl, by simpa using keeps⟩
    | true => exact .inr ⟨rfl, rfl⟩
  split
  next fails => exact .inr ⟨fails, rfl⟩
  next commits =>
    refine .inl ⟨by simpa using commits, ?_, rfl, rfl, fun _ => rfl, by simp [KeyedTable.empty]⟩
    have sums : ∀ address, windowSum address attempt.windows =
        difficultySum (sharesBy address (sharesOf pending)) := by
      intro address
      rw [← keeps.windows address]
      exact (walks.map _).sum_eq
    have known : ∀ r ∈ attempt.windows, ∃ s ∈ sharesOf pending, s.minerAddress = r.1 :=
      fun r member => keeps.known r (walks.mem_iff.mp member)
    rw [keeps.shareBatch, keeps.minerBatch]
    exact flushInner_ledger keeps.tables sums known

/-! ### Runs -/

/-- The event an input brings, if it brings one. -/
def WorkerInput.event? : WorkerInput → Option DbEvent
  | .event ev => some ev
  | _ => none

/-- The events that the worker received, in order. -/
def eventsOf (inputs : List WorkerInput) : List DbEvent := inputs.filterMap WorkerInput.event?

private theorem attempts_check {w : Worker} {now after : Nat} {attempt due : Attempt}
    (h : w.attempts (.check now after attempt) = some due) : due = attempt := by
  simp only [Worker.attempts] at h
  split at h
  · cases h
    rfl
  · cases h

/-- All that a step can do: push an event, wait, or try a flush. -/
theorem Worker.step_cases {w w' : Worker} {i : WorkerInput} (stepped : w.step i = some w') :
    (∃ ev phase, i.event? = some ev ∧ w.attempts i = none ∧
      w' = { w.pushEvent ev with phase }) ∨
    i.event? = none ∧
      ((∃ phase, w.attempts i = none ∧ w' = { w with phase }) ∨
        ∃ attempt lastFlush phase, w.attempts i = some attempt ∧ w.Walks attempt ∧
          w' = { w.flush attempt with lastFlush, phase }) := by
  unfold Worker.step at stepped
  split at stepped
  · cases stepped
    exact .inl ⟨_, _, rfl, rfl, rfl⟩
  · cases stepped
    exact .inr ⟨rfl, .inl ⟨_, rfl, rfl⟩⟩
  · cases stepped
    exact .inl ⟨_, _, rfl, rfl, rfl⟩
  · cases stepped
    exact .inr ⟨rfl, .inl ⟨_, rfl, rfl⟩⟩
  · split at stepped
    next walks =>
      cases stepped
      exact .inr ⟨rfl, .inr ⟨_, _, _, rfl, walks, rfl⟩⟩
    · cases stepped
  · split at stepped
    next walks =>
      cases stepped
      exact .inr ⟨rfl, .inr ⟨_, _, _, rfl, walks, rfl⟩⟩
    · cases stepped
  · split at stepped
    next due =>
      obtain rfl := attempts_check due
      split at stepped
      next walks =>
        cases stepped
        exact .inr ⟨rfl, .inr ⟨_, _, _, due, walks, rfl⟩⟩
      · cases stepped
    next due =>
      cases stepped
      exact .inr ⟨rfl, .inl ⟨_, due, rfl⟩⟩
  · cases stepped

/-- The books after a step: an event is pending, a committed flush leaves nothing pending,
and anything else changes neither. -/
theorem step_keeps {w w' : Worker} {i : WorkerInput} {done pending : List DbEvent}
    (keeps : w.Keeps done pending) (stepped : w.step i = some w') :
    (∃ ev, i.event? = some ev ∧ w.attempts i = none ∧ w'.Keeps done (pending ++ [ev])) ∨
    i.event? = none ∧
      ((∃ attempt, w.attempts i = some attempt ∧ attempt.fails = false ∧
          w'.Keeps (done ++ pending) []) ∨
        (∀ attempt, w.attempts i = some attempt → attempt.fails = true) ∧
          w'.Keeps done pending) := by
  -- the books speak of neither the phase nor the timer
  have timed {w : Worker} {done pending : List DbEvent} (k : w.Keeps done pending)
      (lastFlush : Nat) (phase : WorkerPhase) :
      ({ w with lastFlush, phase } : Worker).Keeps done pending :=
    ⟨k.tables, k.shareBatch, k.minerBatch, k.windows, k.known⟩
  rcases Worker.step_cases stepped with ⟨ev, phase, brings, idle, rfl⟩ |
    ⟨brings, ⟨phase, idle, rfl⟩ | ⟨attempt, lastFlush, phase, attempted, walks, rfl⟩⟩
  · exact .inl ⟨ev, brings, idle, timed (keeps.pushEvent ev) _ phase⟩
  · refine .inr ⟨brings, .inr ⟨?_, timed keeps _ phase⟩⟩
    intro attempt attempted
    rw [idle] at attempted
    cases attempted
  rcases keeps.flush walks with ⟨commits, flushed⟩ | ⟨fails, same⟩
  · exact .inr ⟨brings, .inl ⟨attempt, attempted, commits, timed flushed lastFlush phase⟩⟩
  · refine .inr ⟨brings, .inr ⟨?_, ?_⟩⟩
    · intro other also
      rw [attempted, Option.some.injEq] at also
      exact also ▸ fails
    · rw [same]
      exact timed keeps lastFlush phase

private theorem eventsOf_append (past : List WorkerInput) (i : WorkerInput) :
    eventsOf (past ++ [i]) = eventsOf past ++ i.event?.toList := by
  rw [eventsOf, List.filterMap_append]
  cases event : i.event? <;> simp [eventsOf, event]

/-- In every reachable state the events received are those the tables cover and those in
the batches. -/
theorem Worker.run_keeps {start : Nat} {inputs : List WorkerInput} {w : Worker}
    (ran : Execution.run Worker.step (new start) inputs = some w) :
    ∃ done pending, eventsOf inputs = done ++ pending ∧ w.Keeps done pending := by
  refine Execution.run_history (fun past (w : Worker) => ∃ done pending,
    eventsOf past = done ++ pending ∧ w.Keeps done pending) ?_ ⟨[], [], rfl, keeps_new start⟩ ran
  rintro past w i w' ⟨done, pending, events, keeps⟩ stepped
  rw [eventsOf_append, events]
  rcases step_keeps keeps stepped with ⟨ev, brings, _, keeps'⟩ |
    ⟨brings, ⟨_, _, _, keeps'⟩ | ⟨_, keeps'⟩⟩
  · rw [brings, List.append_assoc]
    exact ⟨done, _, rfl, keeps'⟩
  · rw [brings]
    exact ⟨_, [], rfl, keeps'⟩
  · rw [brings, Option.toList_none, List.append_nil]
    exact ⟨done, pending, rfl, keeps'⟩

/-- A flush whose time has come. -/
theorem Worker.step_check {w : Worker} {now after : Nat} {attempt : Attempt}
    (phase : w.phase = .checking) (due : w.attempts (.check now after attempt) = some attempt)
    (walks : w.Walks attempt) : w.step (.check now after attempt) =
      some { w.flush attempt with lastFlush := after, phase := .waiting } := by
  simp only [Worker.step, phase, due, if_pos walks]

/-- Events that come while the worker drains its queue. -/
private theorem Worker.run_drains {w : Worker} (phase : w.phase = .draining)
    (events : List DbEvent) :
    ∃ w', Execution.run step w (events.map .event) = some w' ∧ w'.phase = .draining ∧
      w'.lastFlush = w.lastFlush := by
  induction events generalizing w with
  | nil => exact ⟨w, rfl, phase, rfl⟩
  | cons ev events ih =>
    have pushed : w.step (.event ev) = some (w.pushEvent ev) := by
      simp only [step, phase]
    have same : (w.pushEvent ev).phase = w.phase ∧
        (w.pushEvent ev).lastFlush = w.lastFlush := by
      cases ev <;> exact ⟨rfl, rfl⟩
    obtain ⟨w', ran, still, timer⟩ := ih (same.1.trans phase)
    refine ⟨w', ?_, still, timer.trans same.2⟩
    rw [List.map_cons, Execution.run_cons, pushed, Option.bind_some, ran]

/-- Whatever was sent, the worker can receive it all and commit it. -/
theorem Worker.can_commit (events : List DbEvent) :
    ∃ inputs w, eventsOf inputs = events ∧ Execution.run step (new 0) inputs = some w ∧
      w.db.ledger = Ledger.of events := by
  obtain ⟨w₁, drains, phase, timer⟩ :=
    run_drains (w := { new 0 with phase := .draining }) rfl events
  let attempt : Attempt := ⟨61, w₁.minuteWindows.rows, false⟩
  let w₂ : Worker := { w₁ with phase := .checking }
  -- a second without an event, the events, and a flush after the first minute
  have ran : Execution.run step (new 0) (.timeout :: events.map .event) = some w₁ := drains
  have checked : w₁.step .drained = some w₂ := by
    simp only [step, phase, w₂]
  have due : w₂.attempts (.check 60000 60001 attempt) = some attempt := by
    simp [attempts, w₂, timer, new, flushInterval]
  have stepped := step_check (w := w₂) rfl due (List.Perm.refl _)
  have reached := Execution.run_snoc ran checked
  have all : eventsOf (.timeout :: events.map .event ++ [.drained]) = events := by
    rw [eventsOf_append, eventsOf, List.filterMap_cons_none rfl, List.filterMap_map]
    exact (List.append_nil _).trans List.filterMap_some
  obtain ⟨done, pending, split, keeps⟩ := run_keeps reached
  refine ⟨_, _, ?_, Execution.run_snoc reached stepped, ?_⟩
  · rw [eventsOf_append, all]
    exact List.append_nil _
  rcases step_keeps keeps stepped with ⟨_, _, none, _⟩ | ⟨_, ⟨_, _, _, keeps'⟩ | ⟨fails, _⟩⟩
  · rw [due] at none
    cases none
  · rw [keeps'.tables, ← split, all]
  · cases fails attempt due

/-- After every flush that commits, in every run, the tables say what all the events so far
are worth: nothing is lost or counted twice, and the batches do not matter. -/
theorem ledger_after_flush {start : Nat} {past : List WorkerInput} {i : WorkerInput}
    {w w' : Worker} {attempt : Attempt}
    (ran : Execution.run Worker.step (Worker.new start) past = some w)
    (stepped : w.step i = some w') (attempted : w.attempts i = some attempt)
    (commits : attempt.fails = false) : w'.db.ledger = Ledger.of (eventsOf past) := by
  obtain ⟨done, pending, events, keeps⟩ := Worker.run_keeps ran
  rw [events]
  rcases step_keeps keeps stepped with ⟨_, _, none, _⟩ | ⟨_, ⟨_, _, _, keeps'⟩ | ⟨fails, _⟩⟩
  · rw [none] at attempted
    cases attempted
  · exact keeps'.tables
  · rw [fails attempt attempted] at commits
    cases commits

/-- A miner connects, sends a share, and the events are drained. -/
def minuteInputs : List WorkerInput :=
  [.event (.minerConnected "miner" 59), .event (.share ⟨"miner", 1, Bytes.zeros 32, 60⟩), .drained]

/-- A flush of that share fails, and another share comes before the next one. -/
def failedInputs : List WorkerInput :=
  minuteInputs ++ [.check 60000 60001 ⟨61, [("miner", 1)], true⟩,
    .event (.share ⟨"other", 2, Bytes.zeros 32, 120⟩), .drained]

theorem ledger_after_flush_minute :
    let due : Attempt := ⟨121, [("other", 2), ("miner", 1)], false⟩
    ∃ w w', Execution.run Worker.step (Worker.new 0) failedInputs = some w ∧
      w.step (.check 120001 120002 due) = some w' ∧
      w'.db.ledger = Ledger.of [.minerConnected "miner" 59,
        .share ⟨"miner", 1, Bytes.zeros 32, 60⟩, .share ⟨"other", 2, Bytes.zeros 32, 120⟩] := by
  intro due
  have checks : (Execution.run Worker.step (Worker.new 0) failedInputs).any (fun w =>
      (w.step (.check 120001 120002 due)).isSome ∧
        120001 - w.lastFlush ≥ flushInterval) := by
    decide +kernel
  obtain ⟨w, ran, steps, elapsed⟩ := Execution.exists_of_any checks
  obtain ⟨w', stepped⟩ := Option.isSome_iff_exists.mp steps
  have attempted : w.attempts (.check 120001 120002 due) = some due := if_pos (.inl elapsed)
  exact ⟨w, w', ran, stepped, ledger_after_flush ran stepped attempted rfl⟩

end MiningPool
