import MiningPool.Db.Journal
import MiningPool.Pool.Credit

/-!
# Registered miners

A connection greets the address of every channel before it credits a share to it, and the
worker commits events in the order in which they were sent. So every address that has a
row somewhere in the tables is in `miners`.
-/

namespace MiningPool

open Bitcoin

/-! ### Introductions -/

/-- Every share comes after a connection of its miner. -/
def Introduced (events : List DbEvent) : Prop :=
  ∀ past s rest, events = past ++ .share s :: rest →
    ∃ timestamp, .minerConnected s.minerAddress timestamp ∈ past

theorem Introduced.nil : Introduced [] := by
  intro past s rest split
  simp at split

theorem Introduced.append {events added : List DbEvent} (before : Introduced events)
    (known : ∀ s, .share s ∈ added →
      ∃ timestamp, .minerConnected s.minerAddress timestamp ∈ events) :
    Introduced (events ++ added) := by
  intro past s rest split
  rcases List.append_eq_append_iff.mp split with ⟨gap, rfl, eq⟩ | ⟨gap, rfl, eq⟩
  · obtain ⟨timestamp, met⟩ := known s (eq ▸ List.mem_append_right gap List.mem_cons_self)
    exact ⟨timestamp, List.mem_append_left gap met⟩
  cases gap with
  | nil =>
    have first : added = .share s :: rest := eq.symm
    obtain ⟨timestamp, met⟩ := known s (first ▸ List.mem_cons_self)
    exact ⟨timestamp, by simpa using met⟩
  | cons ev gap =>
    obtain ⟨rfl, _⟩ := List.cons.inj eq
    exact before past s gap rfl

theorem Introduced.earlier {events part : List DbEvent} (before : Introduced events)
    (inside : part <+: events) : Introduced part := by
  rintro past s rest rfl
  obtain ⟨later, rfl⟩ := inside
  exact before past s (rest ++ later) (by simp)

/-- The miner of a share was met somewhere. -/
theorem Introduced.met {events : List DbEvent} (before : Introduced events) {s : ShareEvent}
    (member : .share s ∈ events) :
    ∃ timestamp, .minerConnected s.minerAddress timestamp ∈ events := by
  obtain ⟨past, rest, split⟩ := List.append_of_mem member
  obtain ⟨timestamp, met⟩ := before past s rest split
  exact ⟨timestamp, split ▸ List.mem_append_left _ met⟩

/-! ### Connections -/

/-- What the effects of a connection tell the database, sent or not. -/
def Connection.told (c : Connection) : List DbEvent := c.effects.filterMap Effect.dbEvent?

/-- Whatever the connection tells of shares comes after a greeting, and as long as it is
live, the miner of each of its channels has been greeted. -/
structure Connection.Greets (c : Connection) : Prop where
  introduced : Introduced c.told
  channels : c.live = true → ∀ id ch, c.state.channels.get? id = some ch →
    ∃ timestamp, .minerConnected ch.minerAddress timestamp ∈ c.told

section

variable {X : Externals} {c c' : Connection} {i : Input}

private theorem told_append {added : List Effect} (effects : c'.effects = c.effects ++ added) :
    c'.told = c.told ++ added.filterMap Effect.dbEvent? := by
  rw [Connection.told, effects, List.filterMap_append]
  rfl

/-- A share that a step tells of is for a channel that was there before. -/
private theorem told_cases (stepped : Connection.Stepped X true c i c') :
    ∃ added, c'.told = c.told ++ added ∧ ∀ s, .share s ∈ added →
      ∃ id ch, c.state.channels.get? id = some ch ∧ s.minerAddress = ch.minerAddress := by
  obtain ⟨added, effects⟩ := stepped.effects
  refine ⟨added.filterMap Effect.dbEvent?, told_append effects, ?_⟩
  intro s member
  obtain ⟨e, inside, tells⟩ := List.mem_filterMap.mp member
  -- an added effect, at its place among all of them
  obtain ⟨n, at_n⟩ := List.mem_iff_getElem?.mp inside
  have placed : c'.effects[c.effects.length + n]? = some e := by
    rw [effects, List.getElem?_append_right (Nat.le_add_right ..), Nat.add_sub_cancel_left, at_n]
  rcases stepped.effect_cases (Nat.le_add_right ..) placed with ⟨m, rfl⟩ | ⟨address, now, rfl⟩ |
    ⟨share, template, now, socket, _, added', expected, effects'⟩
  · cases tells
  · cases tells
  -- what a share adds is the beginning of what it leads to
  obtain rfl : added = added' := List.append_cancel_left (effects.symm.trans effects')
  rcases shareEffects_cases (expected.subset inside) with ⟨_, rfl⟩ |
    ⟨channel, job, coinbaseTx, found, _, _, _, _, rfl | rfl | ⟨rfl, _⟩⟩
  · cases tells
  · cases tells
  · cases tells
    exact ⟨share.channelId, channel, found, rfl⟩
  · cases tells

/-- An open request that leaves the connection live has its miner greeted. -/
private theorem told_opened (stepped : Connection.Stepped X true c i c') (live : c'.live = true)
    {msg : OpenExtendedMiningChannel} (opens : i.opens = some msg) :
    ∃ timestamp, .minerConnected (openedChannel X c.state msg i.template).minerAddress timestamp ∈
      c'.told := by
  cases stepped with
  -- a request that fails before the greeting ends the connection
  | unanswered _ _ dead =>
    rw [dead] at live
    cases live
  | unserved _ _ _ _ dead =>
    rw [dead] at live
    cases live
  | @opened _ _ now _ _ _ _ _ _ _ effects =>
    cases opens
    refine ⟨now, ?_⟩
    rw [told_append effects, List.mem_append, List.mem_filterMap]
    exact .inr ⟨.connected _ _, List.mem_append_right _ List.mem_cons_self, rfl⟩
  | submitted => cases opens
  | unhandled _ _ notOpen =>
    rw [Connection.Stepped.opens_unhandled notOpen] at opens
    cases opens
  | broadcast => cases opens

theorem Connection.Stepped.greets (stepped : Stepped X true c i c') (live : c.live = true)
    (holds : c.Greets) : c'.Greets := by
  obtain ⟨added, told, shares⟩ := told_cases stepped
  -- what was met before the step is met after it
  have kept {address : String} (met : ∃ timestamp, .minerConnected address timestamp ∈ c.told) :
      ∃ timestamp, .minerConnected address timestamp ∈ c'.told := by
    obtain ⟨timestamp, member⟩ := met
    exact ⟨timestamp, told ▸ List.mem_append_left added member⟩
  constructor
  case introduced =>
    rw [told]
    -- a share is for a channel that was there before the step, so its miner was met
    refine holds.introduced.append fun s member => ?_
    obtain ⟨id, ch, found, own⟩ := shares s member
    rw [own]
    exact holds.channels live id ch found
  case channels =>
    intro live' id ch found
    -- an old channel, with or without a new job, or the one that was just opened
    rcases stepped.channel_cases found with old | ⟨base, _, _, _, old, _, _, rfl⟩ |
      ⟨msg, opens, _, rfl | ⟨info, _, rfl⟩⟩
    · exact kept (holds.channels live id ch old)
    · exact kept (holds.channels live id base old)
    · exact told_opened stepped live' opens
    · exact told_opened stepped live' opens

theorem Connection.run_greets {pool : String} {inputs : List Input}
    (ran : run X true (new pool) inputs = some c) : c.Greets := by
  have fresh : (new pool).Greets := by
    refine ⟨Introduced.nil, fun _ id ch found => ?_⟩
    cases found
  exact Execution.run_invariant Greets (fun _ _ _ holds stepped =>
    (step_cases stepped).greets (step_live stepped) holds) fresh ran

end

/-! ### The pool -/

section

variable {X : Externals} {pool : String} {p p' p₀ : Pool} {a : Action} {actions : List Action}
  {block : BlockTemplate}

/-- A share that leaves its connection is for a miner that the database was told of. -/
private theorem Pool.Stepped.introduced (stepped : Stepped X pool p a p')
    (reported : p.Reported) (greets : ∀ (c : Nat) pc, p.connections[c]? = some pc → pc.conn.Greets)
    (holds : Introduced p.events) : Introduced p'.events := by
  cases stepped with
  | @performed c pc e found next other =>
    refine holds.append fun s tells => ?_
    rw [Option.mem_toList] at tells
    -- the share is told right after what was reported before
    have split : pc.conn.told = pc.reported ++ .share s ::
        (pc.conn.effects.drop (pc.performed + 1)).filterMap Effect.dbEvent? := by
      obtain ⟨inside, at_⟩ := List.getElem?_eq_some_iff.mp next
      have whole : pc.conn.effects = pc.conn.effects.take pc.performed ++
          e :: pc.conn.effects.drop (pc.performed + 1) := by
        rw [← at_, ← List.drop_eq_getElem_cons inside, List.take_append_drop]
      rw [Connection.told, whole, List.filterMap_append, List.filterMap_cons, tells, ← whole]
      rfl
    obtain ⟨timestamp, met⟩ := (greets c pc found).introduced _ s _ split
    have connection : pc ∈ p.connections := List.mem_of_getElem? found
    exact ⟨timestamp, reported.mem_iff.mpr (List.mem_flatMap.mpr ⟨pc, connection, met⟩)⟩
  | _ => exact holds

/-- Whatever the connections do, the database hears of a miner before it hears of a share. -/
theorem Pool.run_introduced (started : Pool.start block = .ok p₀)
    (ran : Pool.run X pool p₀ actions = some p) : Introduced p.events := by
  refine (Execution.run_history (fun past p => Pool.run X pool p₀ past = some p ∧
    Introduced p.events) ?_ ⟨rfl, ?_⟩ ran).2
  · rintro past q a q' ⟨reached, holds⟩ stepped
    -- every connection of a pool ran on its own
    have greets : ∀ (c : Nat) pc, q.connections[c]? = some pc → pc.conn.Greets := by
      intro c pc found
      obtain ⟨inputs, served⟩ := (run_serves started reached).present c pc found
      exact Connection.run_greets served.ran
    exact ⟨Execution.run_snoc reached stepped,
      (step_cases stepped).introduced (run_reported started reached) greets holds⟩
  · simp only [start, bind_eq_ok] at started
    obtain ⟨first, _, eq⟩ := started
    cases eq
    exact Introduced.nil

/-! ### The tables -/

/-- The address occurs in a row about shares. -/
def Db.Credited (db : Db) (address : String) : Prop :=
  (∃ s ∈ db.shares, s.minerAddress = address) ∨ address ∈ db.epochStats.keys ∨
    ∃ minuteTs, (address, minuteTs) ∈ db.minuteHashrates.keys

variable {start : Nat} {inputs : List WorkerInput} {w : Worker} {address : String}

private theorem lookup_isSome {connections : List (String × Int)} {timestamp : Int}
    (member : (address, timestamp) ∈ connections) : (connections.lookup address).isSome := by
  rw [List.lookup_isSome_iff]
  exact ⟨(address, timestamp), member, beq_self_eq_true address⟩

/-- Every row about an address goes back to a share of it. -/
private theorem credited_share
    (worked : Execution.run Worker.step (Worker.new start) inputs = some w)
    (credited : w.db.Credited address) : ∃ s ∈ w.db.shares, s.minerAddress = address := by
  rcases credited with share | stats | ⟨minuteTs, minute⟩
  · exact share
  · obtain ⟨done, _, _, keeps⟩ := Worker.run_keeps worked
    obtain ⟨shares, account, _, _⟩ := Ledger.mk.inj keeps.tables
    -- a row in `epoch_stats` is an account, which takes a share to open
    rw [← KeyedTable.get?_isSome_iff] at stats
    have open_ : (Account.of (sharesBy address (sharesOf done))).isSome := by
      rw [← congrFun account address, Db.account, Option.isSome_map]
      exact stats
    have some_ : sharesBy address (sharesOf done) ≠ [] := by
      intro none
      rw [none] at open_
      cases open_
    obtain ⟨s, member⟩ := List.exists_mem_of_ne_nil _ some_
    rw [sharesBy, List.mem_filter] at member
    exact ⟨s, shares ▸ member.1, of_decide_eq_true member.2⟩
  · -- a row in `minute_hashrates` is from a commit, which has a share of that miner
    obtain ⟨c, committed, _, credits⟩ := (Worker.written_iff worked _).mp (.inl minute)
    obtain ⟨s, member, own⟩ := List.any_eq_true.mp credits
    refine ⟨s, ?_, of_decide_eq_true own⟩
    rw [Worker.shares_eq worked]
    exact List.mem_flatMap.mpr ⟨c, committed, member⟩

/-- In every database that the worker can leave behind, whatever the connections did and
however the flushes went, an address with a row about shares is a registered miner. -/
theorem credited_registered (started : Pool.start block = .ok p₀)
    (ran : Pool.run X pool p₀ actions = some p) (received : eventsOf inputs <+: p.events)
    (worked : Execution.run Worker.step (Worker.new start) inputs = some w)
    (credited : w.db.Credited address) : address ∈ w.db.miners.keys := by
  obtain ⟨s, member, rfl⟩ := credited_share worked credited
  obtain ⟨done, pending, events, keeps⟩ := Worker.run_keeps worked
  obtain ⟨shares, _, _, miners⟩ := Ledger.mk.inj keeps.tables
  -- what the worker has committed is a beginning of what the pool sent
  have inOrder : Introduced done :=
    (Pool.run_introduced started ran).earlier ((events ▸ List.prefix_append ..).trans received)
  obtain ⟨timestamp, met⟩ := inOrder.met (mem_sharesOf.mp (shares ▸ member))
  have connected : (s.minerAddress, timestamp) ∈ connectionsOf done :=
    List.mem_filterMap.mpr ⟨_, met, rfl⟩
  rw [← KeyedTable.get?_isSome_iff, congrFun miners s.minerAddress]
  exact lookup_isSome connected

end

/-- The miner that an event credits. -/
def DbEvent.creditedTo : DbEvent → Option String
  | .share s => some s.minerAddress
  | .minerConnected .. => none

theorem exists_share_of_credited {events : List DbEvent} {address : String}
    (credited : some address ∈ events.map DbEvent.creditedTo) :
    ∃ s ∈ sharesOf events, s.minerAddress = address := by
  obtain ⟨ev, member, own⟩ := List.mem_map.mp credited
  cases ev with
  | share s => exact ⟨s, mem_sharesOf.mpr member, Option.some.inj own⟩
  | minerConnected => cases own

/-- The share on the test network can be flushed. -/
theorem solveActions_flushed :
    ∃ inputs w, eventsOf inputs <+: (regtestAfter solveActions).events ∧
      Execution.run Worker.step (Worker.new 0) inputs = some w ∧
      ∃ s ∈ w.db.shares, s.minerAddress = regtestAddress := by
  have credited : some regtestAddress ∈
      (regtestAfter solveActions).events.map DbEvent.creditedTo := by
    decide +kernel
  obtain ⟨s, member, own⟩ := exists_share_of_credited credited
  obtain ⟨inputs, w, received, worked, tables⟩ :=
    Worker.can_commit (regtestAfter solveActions).events
  obtain ⟨shares, _⟩ := Ledger.mk.inj tables
  exact ⟨inputs, w, received ▸ List.prefix_refl _, worked, s, shares ▸ member, own⟩

/-- After that flush the miner of the share has a row in `shares` and in `miners`. -/
theorem credited_registered_regtest :
    ∃ inputs w, eventsOf inputs <+: (regtestAfter solveActions).events ∧
      Execution.run Worker.step (Worker.new 0) inputs = some w ∧
      w.db.Credited regtestAddress ∧ regtestAddress ∈ w.db.miners.keys := by
  obtain ⟨inputs, w, received, worked, share⟩ := solveActions_flushed
  have credited : w.db.Credited regtestAddress := .inl share
  exact ⟨inputs, w, received, worked, credited,
    credited_registered regtestPool_started solveActions_ran received worked credited⟩

end MiningPool
