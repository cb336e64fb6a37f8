import Mathlib.Data.Rat.Defs
import MiningPool.Db.Event
import MiningPool.Library.Execution
import MiningPool.Library.KeyedTable

/-!
# The database worker

`db.rs`: the tables, the transaction of a flush, and the worker thread as a machine.
A transaction either commits or leaves the tables as they were. The clock, the order in
which a hash map is walked and the outcome of a transaction come with the inputs.
-/

namespace MiningPool

/-! ### Tables -/

structure EpochStats where
  sharesCount : Nat
  activeMinutes : Nat
  totalDifficulty : ℚ
  bestShareHash : Option (Bytes 32)

/-- `pruned` is no table: it keeps the rows that were deleted from `minuteHashrates`. -/
structure Db where
  miners : KeyedTable String Int
  shares : List ShareEvent
  epochStats : KeyedTable String EpochStats
  minuteHashrates : KeyedTable (String × Int) ℚ
  pruned : List ((String × Int) × ℚ)

def Db.empty : Db := ⟨KeyedTable.empty, [], KeyedTable.empty, KeyedTable.empty, []⟩

/-! ### The statements of a flush -/

namespace Db

/-- `INSERT OR IGNORE INTO miners`. -/
def insertMiner (db : Db) (miner : String × Int) : Db :=
  { db with miners := db.miners.insertOrIgnore miner.1 miner.2 }

/-- The `CASE` of the upsert. Byte strings compare from the left. -/
def betterHash (best : Option (Bytes 32)) (hash : Bytes 32) : Bytes 32 :=
  match best with
  | none => hash
  | some best => if hash.data < best.data then hash else best

/-- `INSERT INTO shares` and the first upsert of `epoch_stats`. -/
def insertShare (db : Db) (share : ShareEvent) : Db :=
  { db with
    shares := db.shares ++ [share]
    epochStats := db.epochStats.upsert share.minerAddress
      ⟨1, 0, share.difficulty, some share.blockHashBe⟩ fun row =>
        { row with
          sharesCount := row.sharesCount + 1
          totalDifficulty := row.totalDifficulty + share.difficulty
          bestShareHash := some (betterHash row.bestShareHash share.blockHashBe) } }

/-- The upserts of `minute_hashrates` and of the active minutes. -/
def insertWindow (minuteTs : Int) (db : Db) (window : String × ℚ) : Db :=
  { db with
    minuteHashrates := db.minuteHashrates.upsert (window.1, minuteTs) window.2 (· + window.2)
    epochStats := db.epochStats.upsert window.1 ⟨0, 1, 0, none⟩ fun row =>
      { row with activeMinutes := row.activeMinutes + 1 } }

/-- `DELETE FROM minute_hashrates WHERE minute_ts < cutoff`. -/
def prune (cutoff : Int) (db : Db) : Db :=
  { db with
    minuteHashrates := db.minuteHashrates.filter fun row => !(row.1.2 < cutoff)
    pruned := db.pruned ++ (db.minuteHashrates.filter fun row => row.1.2 < cutoff).rows }

end Db

def minuteRetentionSecs : Int := 24 * 3600

/-- The transaction of a flush, when it commits. `windows` are the entries of the window
map in the order in which they are walked. -/
def flushInner (db : Db) (shares : List ShareEvent) (miners : List (String × Int))
    (windows : List (String × ℚ)) (minuteTs : Int) : Db :=
  let db := miners.foldl Db.insertMiner db
  let db := shares.foldl Db.insertShare db
  let db := windows.foldl (Db.insertWindow minuteTs) db
  db.prune (minuteTs - minuteRetentionSecs)

/-! ### The worker -/

inductive WorkerPhase
  /-- In `recv_timeout`. -/
  | waiting
  /-- In the `try_recv` loop. -/
  | draining
  /-- Before the flush condition. -/
  | checking
  | returned
deriving DecidableEq

structure Worker where
  db : Db
  shareBatch : List ShareEvent
  minerBatch : List (String × Int)
  minuteWindows : KeyedTable String ℚ
  lastFlush : Nat
  phase : WorkerPhase

/-- What a flush meets: the clock, the walk over the window map, and whether the
transaction fails. -/
structure Attempt where
  nowSecs : Int
  windows : List (String × ℚ)
  fails : Bool

inductive WorkerInput
  /-- A receive that returns an event. -/
  | event (ev : DbEvent)
  /-- A second without an event. -/
  | timeout
  /-- Nothing more to drain. -/
  | drained
  /-- All senders are gone. -/
  | disconnected (attempt : Attempt)
  /-- The flush condition at `now`; a flush sets the timer to `after`. -/
  | check (now after : Nat) (attempt : Attempt)

/-- The flush interval in milliseconds. -/
def flushInterval : Nat := 60 * 1000

def floorMinute (tsSecs : Int) : Int := (tsSecs.tdiv 60) * 60

namespace Worker

def new (start : Nat) : Worker := ⟨Db.empty, [], [], KeyedTable.empty, start, .waiting⟩

def pushEvent (w : Worker) : DbEvent → Worker
  | .share s =>
    { w with
      minuteWindows := w.minuteWindows.upsert s.minerAddress (0 + s.difficulty) (· + s.difficulty)
      shareBatch := w.shareBatch ++ [s] }
  | .minerConnected address timestamp =>
    { w with minerBatch := w.minerBatch ++ [(address, timestamp)] }

/-- The batches are cleared only when the transaction commits. -/
def flush (w : Worker) (attempt : Attempt) : Worker :=
  if w.shareBatch.isEmpty && w.minerBatch.isEmpty && w.minuteWindows.rows.isEmpty then w
  else if attempt.fails then w
  else
    { w with
      db := flushInner w.db w.shareBatch w.minerBatch attempt.windows (floorMinute attempt.nowSecs)
      shareBatch := []
      minerBatch := []
      minuteWindows := KeyedTable.empty }

/-- The flush that an input makes in a state, if it makes one. -/
def attempts (w : Worker) : WorkerInput → Option Attempt
  | .disconnected attempt => some attempt
  | .check now _ attempt =>
    if now - w.lastFlush ≥ flushInterval ∨ w.shareBatch.length ≥ 1000 then some attempt else none
  | _ => none

/-- The walk visits every entry of the window map once. -/
def Walks (w : Worker) (attempt : Attempt) : Prop := attempt.windows.Perm w.minuteWindows.rows

instance (w : Worker) (attempt : Attempt) : Decidable (w.Walks attempt) :=
  inferInstanceAs (Decidable (List.Perm _ _))

def step (w : Worker) (i : WorkerInput) : Option Worker :=
  match w.phase, i with
  | .waiting, .event ev => some { w.pushEvent ev with phase := .draining }
  | .waiting, .timeout => some { w with phase := .draining }
  | .draining, .event ev => some (w.pushEvent ev)
  | .draining, .drained => some { w with phase := .checking }
  | .waiting, .disconnected attempt | .draining, .disconnected attempt =>
    if w.Walks attempt then some { w.flush attempt with phase := .returned } else none
  | .checking, .check _ after attempt =>
    match w.attempts i with
    | some _ =>
      if w.Walks attempt then
        some { w.flush attempt with lastFlush := after, phase := .waiting }
      else none
    | none => some { w with phase := .waiting }
  | _, _ => none

end Worker

end MiningPool
