import Mathlib.Data.Int.Interval
import Mathlib.Data.List.DropRight
import MiningPool.Db.Lifetimes

/-!
# Retention of minutes

Every flush prunes the minutes that are a day older than its own. What `minute_hashrates`
holds after any number of lifetimes can be told from the journal of their commits: a row for
each minute that was not pruned since, with what was committed in it for the address.

## Main results

- `Db.minute_rows`: every row, and which rows there are.
- `Db.minute_rows_bounded`: on a clock that runs forward, an address has a day of them at most.
-/

namespace MiningPool

variable {db db' : Db} {c : Commit} {journal : List Commit} {lifetimes : List Lifetime}

/-! ### One commit -/

def Commit.cutoff (c : Commit) : Int := c.minuteTs - minuteRetentionSecs

/-- The upserts of distinct addresses into one minute. -/
private theorem insertWindows_get? (minuteTs : Int) (db : Db) (windows : List (String × ℚ))
    (unique : (windows.map Prod.fst).Nodup) (key : String × Int) :
    (windows.foldl (Db.insertWindow minuteTs) db).minuteHashrates.get? key =
      if key.2 = minuteTs then
        match windows.lookup key.1 with
        | some d => some ((db.minuteHashrates.get? key).getD 0 + d)
        | none => db.minuteHashrates.get? key
      else db.minuteHashrates.get? key := by
  induction windows generalizing db with
  | nil => simp
  | cons w windows ih =>
    obtain ⟨fresh, unique'⟩ := List.nodup_cons.mp unique
    obtain ⟨address, d⟩ := w
    obtain ⟨address', ts⟩ := key
    rw [List.foldl_cons, ih _ unique', Db.insertWindow]
    simp only [KeyedTable.get?_upsert, Prod.mk.injEq, List.lookup_cons]
    by_cases minute : ts = minuteTs
    · by_cases own : address' = address
      · have absent : windows.lookup address = none := by
          rw [List.lookup_eq_none_iff]
          intro w member
          rw [bne_iff_ne]
          rintro rfl
          exact fresh (List.mem_map.mpr ⟨w, member, rfl⟩)
        cases before : db.minuteHashrates.get? (address, minuteTs) <;>
          simp [minute, own, absent, before]
      · have other : (address' == address) = false := beq_false_of_ne own
        simp [minute, own, other]
    · simp [minute]

/-- Whether and how a commit changes a row. -/
private theorem apply_get? (balanced : c.Balanced) (db : Db) (key : String × Int) :
    (db.apply c).minuteHashrates.get? key =
      if key.2 < c.cutoff then none
      else if key.2 = c.minuteTs ∧ c.credits key.1 = true then
        some ((db.minuteHashrates.get? key).getD 0 + c.difficulty key.1)
      else db.minuteHashrates.get? key := by
  obtain ⟨table, miners⟩ := insertMiners_same db c.miners
  obtain ⟨_, _, minutes, _⟩ := insertShares_frame { db with miners := table } c.shares
  have windows : c.windows.lookup key.1 =
      if c.credits key.1 = true then some (c.difficulty key.1) else none := by
    let table : KeyedTable String ℚ := ⟨c.windows, balanced.unique⟩
    change table.get? key.1 = _
    split
    next credited =>
      exact (table.get?_eq_some_iff _ _).mpr ((balanced.entries _ _).mpr ⟨credited, rfl⟩)
    next uncredited =>
      exact (table.get?_eq_none_iff _).mpr (mt (balanced.mem_windows _).mp uncredited)
  rw [Db.apply, flushInner, miners, Db.prune]
  simp only [KeyedTable.get?_filter, insertWindows_get? _ _ _ balanced.unique, minutes, windows,
    Commit.cutoff]
  by_cases old : key.2 < c.minuteTs - minuteRetentionSecs
  · simp [old]
  · have all (row : Option ℚ) : row.filter (fun _ => true) = row := by cases row <;> rfl
    simp only [old, decide_false, Bool.not_false, all, if_false]
    by_cases minute : key.2 = c.minuteTs
    · by_cases credited : c.credits key.1 = true <;> simp [minute, credited]
    · simp [minute]

/-! ### A journal -/

/-- The commits since the last one that pruned the minute. -/
def sinceCutoff (ts : Int) (journal : List Commit) : List Commit :=
  journal.rtakeWhile fun c => !(ts < c.cutoff)

/-- What the row of an address and a minute should be: what was committed for the address in
that minute and not pruned. -/
def rowOf (journal : List Commit) (key : String × Int) : Option ℚ :=
  let kept := (sinceCutoff key.2 journal).filter fun c => c.minuteTs = key.2
  if kept.any (Commit.credits · key.1) then
    some (difficultySum (sharesBy key.1 (kept.flatMap Commit.shares)))
  else none

private theorem sharesBy_uncredited {address : String} {shares : List ShareEvent}
    (uncredited : (shares.any fun s => s.minerAddress = address) = false) :
    sharesBy address shares = [] := by
  simpa [sharesBy] using uncredited

private theorem rowOf_concat (journal : List Commit) (c : Commit) (key : String × Int) :
    rowOf (journal ++ [c]) key =
      if key.2 < c.cutoff then none
      else if key.2 = c.minuteTs ∧ c.credits key.1 = true then
        some ((rowOf journal key).getD 0 + c.difficulty key.1)
      else rowOf journal key := by
  unfold rowOf sinceCutoff
  rw [List.rtakeWhile_concat]
  by_cases old : key.2 < c.cutoff
  · simp [old]
  simp only [old, decide_false, Bool.not_false, if_true, if_false, List.filter_append]
  generalize (journal.rtakeWhile _).filter _ = kept
  by_cases minute : key.2 = c.minuteTs
  · have one : [c].filter (fun c => c.minuteTs = key.2) = [c] := by simp [minute]
    rw [one]
    simp only [List.any_append, List.flatMap_append, sharesBy_append, difficultySum_append,
      minute, true_and]
    cases credited : c.credits key.1 with
    | true =>
      cases before : kept.any (Commit.credits · key.1) with
      | true => simp [credited, Commit.difficulty]
      | false =>
        have nothing : sharesBy key.1 (kept.flatMap Commit.shares) = [] := by
          apply sharesBy_uncredited
          rw [List.any_flatMap]
          exact before
        simp [credited, nothing, difficultySum, Commit.difficulty]
    | false =>
      have nothing : sharesBy key.1 c.shares = [] := sharesBy_uncredited credited
      simp [credited, nothing, difficultySum]
  · simp [minute, Ne.symm minute]

/-- The rows are what the journal says. -/
theorem Db.replay_rows (balanced : ∀ c ∈ journal, c.Balanced) (key : String × Int) :
    (journal.foldl Db.apply Db.empty).minuteHashrates.get? key = rowOf journal key := by
  induction journal using List.reverseRecOn with
  | nil => rfl
  | append_singleton journal c ih =>
    have before := ih fun c member => balanced c (List.mem_append_left _ member)
    have last := balanced c (List.mem_append_right _ (List.mem_singleton_self c))
    rw [List.foldl_append, List.foldl_cons, List.foldl_nil, apply_get? last, before, rowOf_concat]

/-- The shares that the row of an address and a minute stands for. -/
def rowShares (journal : List Commit) (key : String × Int) : List ShareEvent :=
  sharesBy key.1 (((sinceCutoff key.2 journal).filter fun c => c.minuteTs = key.2).flatMap
    Commit.shares)

/-- In one lifetime. -/
theorem Worker.row_eq {w : Worker} {start : Nat} {inputs : List WorkerInput} {key : String × Int}
    {d : ℚ} (ran : Execution.run step (new start) inputs = some w)
    (row : w.db.minuteHashrates.get? key = some d) :
    d = difficultySum (rowShares ((new start).journal inputs) key) := by
  have lived : Db.empty.live ⟨start, inputs⟩ = some w.db := Option.map_eq_some_iff.mpr ⟨w, ran, rfl⟩
  obtain ⟨replayed, balanced⟩ := Db.live_replay lived
  rw [replayed, Db.replay_rows balanced, rowOf] at row
  obtain ⟨_, sum⟩ := Option.ite_none_right_eq_some.mp row
  exact (Option.some.inj sum).symm

/-! ### Main results -/

/-- After any lifetimes, the row of an address and a minute is there if a share of the address
was committed in the minute and the minute was not pruned since, and it is the sum of these
shares. -/
theorem Db.minute_rows (lived : Db.after lifetimes = some db) (key : String × Int) :
    db.minuteHashrates.get? key = rowOf (lifetimes.flatMap Lifetime.journal) key := by
  obtain ⟨replayed, balanced⟩ := lifetimes_replay lived
  rw [replayed]
  exact replay_rows balanced key

/-- A minute with a row lies in the day up to the last commit. -/
private theorem minute_within (forward : journal.Pairwise fun c c' => c.nowSecs ≤ c'.nowSecs)
    {key : String × Int} (row : (rowOf journal key).isSome) :
    ∃ c ∈ journal.getLast?, key.2 % 60 = 0 ∧ c.nowSecs.tdiv 60 - 1440 ≤ key.2 / 60 ∧
      key.2 / 60 ≤ c.nowSecs.tdiv 60 := by
  rw [rowOf] at row
  split at row
  next credited =>
    obtain ⟨d, written, _⟩ := List.any_eq_true.mp credited
    obtain ⟨since, minute⟩ := List.mem_filter.mp written
    rw [decide_eq_true_iff] at minute
    induction journal using List.reverseRecOn with
    | nil => cases since
    | append_singleton journal c _ =>
      obtain ⟨_, _, before⟩ := List.pairwise_append.mp forward
      -- the last commit did not prune the minute
      have kept : ¬ key.2 < c.cutoff := by
        intro old
        rw [sinceCutoff, List.rtakeWhile_concat_neg] at since
        · cases since
        · simpa using old
      have late : d.nowSecs ≤ c.nowSecs := by
        have member : d ∈ journal ++ [c] := (List.rtakeWhile_suffix _ _).subset since
        rcases List.mem_append.mp member with old | new
        · exact before d old c (List.mem_singleton_self c)
        · rw [List.mem_singleton.mp new]
      have ordered := Int.tdiv_le_tdiv (show (0 : Int) < 60 by decide) late
      rw [Commit.cutoff, Commit.minuteTs, floorMinute, minuteRetentionSecs] at kept
      rw [Commit.minuteTs, floorMinute] at minute
      refine ⟨c, by simp, ?_⟩
      omega
  next => cases row

/-- A share, and a day later one more. -/
def agedLifetimes : List Lifetime :=
  [61, 90061].map fun nowSecs =>
    ⟨0, minuteInputs ++ [.check 60000 60001 ⟨nowSecs, [("miner", 1)], false⟩]⟩

theorem minute_rows_aged : ∃ db, Db.after agedLifetimes = some db ∧
    db.minuteHashrates.keys = [("miner", 90060)] ∧ ∀ ts,
      db.minuteHashrates.get? ("miner", ts) =
        rowOf (agedLifetimes.flatMap Lifetime.journal) ("miner", ts) := by
  have runs : (Db.after agedLifetimes).any
      (fun db => decide (db.minuteHashrates.keys = [("miner", 90060)])) = true := by
    decide +kernel
  obtain ⟨db, lived, rows⟩ := Execution.exists_of_any runs
  exact ⟨db, lived, rows, fun ts => Db.minute_rows lived ("miner", ts)⟩

/-- While the clock runs forward, the table holds at most a day of minutes for an address. -/
theorem Db.minute_rows_bounded (lived : Db.after lifetimes = some db)
    (forward : (lifetimes.flatMap Lifetime.journal).Pairwise fun c c' => c.nowSecs ≤ c'.nowSecs)
    (address : String) :
    (db.minuteHashrates.keys.filter fun key => key.1 = address).length ≤ 1441 := by
  set rows := db.minuteHashrates.keys.filter fun key => key.1 = address with rows_def
  have of_row {key : String × Int} (member : key ∈ rows) : key.1 = address ∧
      (rowOf (lifetimes.flatMap Lifetime.journal) key).isSome := by
    obtain ⟨row, own⟩ := List.mem_filter.mp member
    rw [← minute_rows lived]
    exact ⟨of_decide_eq_true own, (db.minuteHashrates.get?_isSome_iff _).mpr row⟩
  cases last : (lifetimes.flatMap Lifetime.journal).getLast? with
  | none =>
    have no_rows : rows = [] := by
      apply List.eq_nil_iff_forall_not_mem.mpr
      intro key member
      obtain ⟨c, found, _⟩ := minute_within forward (of_row member).2
      rw [last] at found
      cases found
    rw [no_rows]
    exact Nat.zero_le _
  | some c =>
    have within {key : String × Int} (member : key ∈ rows) : key.2 % 60 = 0 ∧
        c.nowSecs.tdiv 60 - 1440 ≤ key.2 / 60 ∧ key.2 / 60 ≤ c.nowSecs.tdiv 60 := by
      obtain ⟨c', found, within⟩ := minute_within forward (of_row member).2
      rw [last, Option.mem_some_iff] at found
      exact found ▸ within
    have distinct : (rows.map fun key => key.2 / 60).Nodup := by
      apply List.Nodup.map_on
      · rintro ⟨a, ts⟩ member ⟨a', ts'⟩ member' same
        obtain ⟨whole, _⟩ := within member
        obtain ⟨whole', _⟩ := within member'
        have address_eq : a = a' := (of_row member).1.trans (of_row member').1.symm
        have minute_eq : ts = ts' := by
          dsimp only at whole whole' same
          omega
        rw [address_eq, minute_eq]
      · exact db.minuteHashrates.unique.filter _
    have day : (rows.map fun key => key.2 / 60).toFinset ⊆
        Finset.Icc (c.nowSecs.tdiv 60 - 1440) (c.nowSecs.tdiv 60) := by
      intro minute member
      obtain ⟨key, row, rfl⟩ := List.mem_map.mp (List.mem_toFinset.mp member)
      exact Finset.mem_Icc.mpr (within row).2
    have counted := Finset.card_le_card day
    rw [List.toFinset_card_of_nodup distinct, List.length_map, Int.card_Icc] at counted
    omega

theorem minute_rows_bounded_aged : ∃ db, Db.after agedLifetimes = some db ∧
    (db.minuteHashrates.keys.filter fun key => key.1 = "miner").length ≤ 1441 := by
  have runs : (Db.after agedLifetimes).isSome = true := by decide +kernel
  have forward : (agedLifetimes.flatMap Lifetime.journal).Pairwise
      fun c c' => c.nowSecs ≤ c'.nowSecs := by decide +kernel
  obtain ⟨db, lived⟩ := Option.isSome_iff_exists.mp runs
  exact ⟨db, lived, Db.minute_rows_bounded lived forward "miner"⟩

end MiningPool
