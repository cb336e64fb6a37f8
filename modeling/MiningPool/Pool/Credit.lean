import MiningPool.Pool.Solutions
import MiningPool.Stratum.Coinbase

/-!
# Credit

What the database is told about shares. Nothing remembers the shares of the past, so work
that is sent twice is credited twice; but each credit is for a message of its own, and two
credits for one header are for the same coinbase and the same channel id.
-/

namespace MiningPool

open Bitcoin Codec

variable {X : Externals} {pool : String} {p p' p₀ : Pool} {a : Action} {actions : List Action}
  {block : BlockTemplate}

/-! ### Events -/

/-- What the effects that left a connection told the database. -/
def PoolConnection.reported (pc : PoolConnection) : List DbEvent :=
  (pc.conn.effects.take pc.performed).filterMap Effect.dbEvent?

private theorem flatMap_set_perm {α β : Type} {f : α → List β} {added : List β} {y : α}
    {xs : List α} {c : Nat} {x : α} (found : xs[c]? = some x) (grown : f y = f x ++ added) :
    (xs.flatMap f ++ added).Perm ((xs.set c y).flatMap f) := by
  induction xs generalizing c with
  | nil => cases found
  | cons x' xs ih =>
    cases c with
    | zero =>
      cases found
      simp only [List.flatMap_cons, List.set_cons_zero, grown, List.append_assoc]
      exact List.Perm.append_left _ List.perm_append_comm
    | succ c =>
      simp only [List.flatMap_cons, List.set_cons_succ, List.append_assoc]
      exact List.Perm.append_left _ (ih found)

/-- The database was told what left the connections, and nothing else. -/
def Pool.Reported (p : Pool) : Prop :=
  p.events.Perm (p.connections.flatMap PoolConnection.reported)

private theorem reported_performed {pc : PoolConnection} {e : Effect} (next : pc.next = some e) :
    PoolConnection.reported { pc with performed := pc.performed + 1 } =
      pc.reported ++ e.dbEvent?.toList := by
  rw [PoolConnection.reported, List.take_add_one, List.filterMap_append]
  rw [PoolConnection.next] at next
  rw [next]
  cases told : e.dbEvent? <;> simp [PoolConnection.reported, told]

theorem Pool.Stepped.reported (stepped : Stepped X pool p a p') (holds : p.Reported) :
    p'.Reported := by
  -- a connection that changes but reports the same
  have same {c : Nat} {pc new : PoolConnection} (found : p.connections[c]? = some pc)
      (eq : new.reported = pc.reported) :
      p.events.Perm ((p.connections.set c new).flatMap PoolConnection.reported) := by
    have grown : (p.connections.flatMap PoolConnection.reported ++ []).Perm
        ((p.connections.set c new).flatMap PoolConnection.reported) :=
      flatMap_set_perm found (eq.trans (List.append_nil _).symm)
    rw [List.append_nil] at grown
    exact holds.trans grown
  -- new effects come after those that left already
  have handled {pc : PoolConnection} {conn : Connection} {i : Input} (idle : pc.Idle)
      (stepped : pc.conn.step X true i = some conn) (seen : Nat) :
      PoolConnection.reported { pc with conn, seen } = pc.reported := by
    obtain ⟨added, effects⟩ := (Connection.step_cases stepped).effects
    rw [PoolConnection.reported, effects, List.take_append_of_le_length idle.2.2.le]
    rfl
  cases stepped with
  | accept => simpa [Pool.Reported, PoolConnection.reported] using holds
  | frame found idle stepped => exact same found (handled idle stepped _)
  | changed found idle stepped => exact same found (handled idle stepped _)
  | sent found next => exact same found ((reported_performed next).trans (List.append_nil _))
  | lost found next => exact same found ((reported_performed next).trans (List.append_nil _))
  | performed found next =>
    exact (holds.append_right _).trans (flatMap_set_perm found (reported_performed next))
  | hangUp found => exact same found rfl
  | _ => exact holds

theorem Pool.run_reported (started : Pool.start block = .ok p₀)
    (ran : Pool.run X pool p₀ actions = some p) : p.Reported := by
  refine Execution.run_invariant Pool.Reported (fun _ _ _ holds stepped =>
    (step_cases stepped).reported holds) ?_ ran
  simp only [start, bind_eq_ok] at started
  obtain ⟨first, _, eq⟩ := started
  cases eq
  exact List.Perm.refl _

/-! ### Credits and messages -/

/-- A credit, which is effect `index` of a connection, and the message that it is for:
which action of the run, the share in it, and what the share was judged by. -/
structure Credit where
  connection : Nat
  index : Nat
  event : ShareEvent
  header : Header
  message : Nat
  share : SubmitSharesExtended
  channel : ChannelInfo
  job : JobInfo
  coinbaseTx : Transaction

/-- The message was received, quoted the current job of its channel and met its target, and
what it led to ends with its success message and the credit. -/
structure Credit.Earned (X : Externals) (pool : String) (p₀ : Pool) (actions : List Action)
    (r : Credit) : Prop where
  received : ∃ now socket, actions[r.message]? =
    some (.frame r.connection (.submitSharesExtended (some r.share)) now socket)
  judged : ∃ q q' pc pc' solution, Pool.run X pool p₀ (actions.take r.message) = some q ∧
    Pool.run X pool p₀ (actions.take (r.message + 1)) = some q' ∧
    q.connections[r.connection]? = some pc ∧ q'.connections[r.connection]? = some pc' ∧
    pc.conn.state.channels.get? r.share.channelId = some r.channel ∧
    (∀ e ∈ solution, e.isSolution) ∧
    pc'.conn.effects = pc.conn.effects ++
      (solution ++ [accepted r.share, .credit r.event r.header]) ∧
    r.index + 1 = pc'.conn.effects.length
  current : r.channel.currentJob = some r.job
  quoted : r.job.jobId = r.share.jobId
  parsed : deserialize (shareCoinbase r.channel r.job r.share.extranonce.val) = some r.coinbaseTx
  header : r.header = shareHeader X r.job r.coinbaseTx r.share
  event : r.event = creditOf X r.channel r.share r.header
  met : workHash X r.header ≤ r.channel.shareTarget

/-- A share that is credited leads to a solution, if it is one, its success message and the
credit. -/
private theorem shareEffects_credited {s : ConnectionState} {share : SubmitSharesExtended}
    {event : ShareEvent} {header : Header}
    (member : .credit event header ∈ shareEffects X s share true) :
    ∃ channel job coinbaseTx solution, s.channels.get? share.channelId = some channel ∧
      channel.currentJob = some job ∧ job.jobId = share.jobId ∧
      deserialize (shareCoinbase channel job share.extranonce.val) = some coinbaseTx ∧
      header = shareHeader X job coinbaseTx share ∧ event = creditOf X channel share header ∧
      workHash X header ≤ channel.shareTarget ∧ (∀ e ∈ solution, e.isSolution) ∧
      shareEffects X s share true = solution ++ [accepted share, .credit event header] := by
  -- of the effects of a share only one is a credit
  rcases shareEffects_cases member with ⟨_, eq⟩ |
    ⟨channel, job, coinbaseTx, found, current, quoted, parsed, met, eq | eq | ⟨eq, _⟩⟩
  · cases eq
  · cases eq
  · cases eq
    refine ⟨channel, job, coinbaseTx, if workHash X (shareHeader X job coinbaseTx share) ≤
        networkTarget job.nbits then [.solution (solutionOf job share
          (shareCoinbase channel job share.extranonce.val)) (shareHeader X job coinbaseTx share)]
        else [], found, current, quoted, parsed, rfl, rfl, met, ?_, ?_⟩
    · intro e solves
      split at solves
      · rw [List.mem_singleton.mp solves]
        rfl
      · cases solves
    · rw [shareEffects_current found current quoted parsed, judgement, if_pos met,
        List.append_assoc]
      rfl
  · cases eq

/-- A credit comes last. -/
private theorem credit_is_last {solution : List Effect} (solves : ∀ e ∈ solution, e.isSolution)
    {share : SubmitSharesExtended} {event event' : ShareEvent} {header header' : Header} {m : Nat}
    (at_m : (solution ++ [accepted share, .credit event header])[m]? =
      some (.credit event' header')) : m = solution.length + 1 := by
  rw [List.getElem?_append] at at_m
  split at at_m
  · -- a credit is no solution
    cases solves _ (List.mem_of_getElem? at_m)
  next after =>
    match position : m - solution.length, at_m with
    | 1, _ => omega

/-- Every credit is earned by a message. -/
theorem Pool.run_earned (started : Pool.start block = .ok p₀)
    (ran : Pool.run X pool p₀ actions = some p) {c n : Nat} {pc : PoolConnection}
    {event : ShareEvent} {header : Header} (found : p.connections[c]? = some pc)
    (effect : pc.conn.effects[n]? = some (.credit event header)) :
    ∃ r : Credit, r.connection = c ∧ r.index = n ∧ r.event = event ∧ r.header = header ∧
      r.Earned X pool p₀ actions := by
  obtain ⟨before, a, q, q', pc₀, pc', i, origin⟩ := run_origin started ran found effect
  obtain ⟨after, split⟩ := origin.split
  have effect := origin.effect
  -- neither an open request nor a template change credits anything
  rcases (Connection.step_cases origin.handled).effect_cases origin.new effect with ⟨_, eq⟩ |
    ⟨_, _, eq⟩ | ⟨share, template, now, socket, rfl, added, expected, effects⟩
  · cases eq
  · cases eq
  obtain rfl := Action.eq_of_inputFor_frame origin.input
  rw [effects, List.getElem?_append_right origin.new] at effect
  obtain ⟨channel, job, coinbaseTx, solution, channel_, current, quoted, parsed, header_, event_,
    met, solves, whole⟩ := shareEffects_credited (expected.subset (List.mem_of_getElem? effect))
  rw [whole] at expected
  -- the last of the effects took place, so all of them did
  have inside := (List.getElem?_eq_some_iff.mp effect).1
  have last : n - pc₀.conn.effects.length = solution.length + 1 := by
    obtain ⟨rest, eq⟩ := expected
    have placed : (added ++ rest)[n - pc₀.conn.effects.length]? = some (.credit event header) :=
      (List.getElem?_append_left inside).trans effect
    rw [eq] at placed
    exact credit_is_last solves placed
  have all : added = solution ++ [accepted share, .credit event header] := by
    refine expected.eq_of_length_le ?_
    simp only [List.length_append, List.length_cons, List.length_nil]
    omega
  -- the run up to the message, and up to after it
  have upTo : actions.take before.length = before := by rw [split, List.take_left]
  have after_ : actions.take (before.length + 1) =
      before ++ [.frame c (.submitSharesExtended (some share)) now socket] := by
    rw [split, List.take_length_add_append]
    rfl
  refine ⟨⟨c, n, event, header, before.length, share, channel, job, coinbaseTx⟩, rfl, rfl, rfl, rfl,
    ⟨⟨now, socket, ?_⟩, ⟨q, q', pc₀, pc', solution, ?_, ?_, origin.found, origin.found', channel_,
      solves, all ▸ effects, ?_⟩, current, quoted, parsed, header_, event_, met⟩⟩
  · rw [split, List.getElem?_append_right le_rfl, Nat.sub_self]
    rfl
  · rw [upTo, origin.reached]
  · rw [after_]
    exact Execution.run_snoc origin.reached origin.stepped
  · have new := origin.new
    rw [effects, List.length_append, all]
    simp only [List.length_append, List.length_cons, List.length_nil]
    omega

/-- A message earns one credit at most. -/
theorem Credit.Earned.same_message {r r' : Credit} (earned : r.Earned X pool p₀ actions)
    (earned' : r'.Earned X pool p₀ actions) (same : r.message = r'.message) :
    r.connection = r'.connection ∧ r.index = r'.index := by
  obtain ⟨_, _, received⟩ := earned.received
  obtain ⟨_, _, received'⟩ := earned'.received
  rw [same, received', Option.some.injEq] at received
  -- one message is for one connection
  injection received with connection
  refine ⟨connection.symm, ?_⟩
  -- and is judged in one state, where it adds its credit at one index
  obtain ⟨_, q, _, pc, _, _, reached, _, found, _, _, _, index⟩ := earned.judged
  obtain ⟨_, q', _, pc', _, _, reached', _, found', _, _, _, index'⟩ := earned'.judged
  rw [same, reached', Option.some.injEq] at reached
  subst reached
  rw [← connection, found', Option.some.injEq] at found
  subst found
  omega

/-! ### Credits for one header -/

/-- The strings hashed on the way from the coinbase of a credited share to the merkle root
of its header. -/
def Credit.preimages (X : Externals) (r : Credit) : List (List UInt8) :=
  branchPreimages X.sha256d r.coinbaseTx.serializeBase r.job.merklePath

private theorem minerCoinbase_long (version sequence lockTime : UInt32) (scriptPrefix : Script)
    (extranonce : Bytes sv2ExtranonceTotal) (payout : TxOut) (rest : List TxOut)
    (witness : List (List UInt8)) :
    (minerCoinbase version sequence lockTime (scriptPrefix ++ extranonce.data) payout rest
      witness).serializeBase.length ≠ 64 := by
  -- the extranonce and the null input alone are longer than 64 bytes
  have total : extranonce.data.length = 36 := extranonce.size
  have input : (minerCoinbase version sequence lockTime (scriptPrefix ++ extranonce.data) payout
      rest witness).input.map TxIn.base =
        [(OutPoint.null, scriptPrefix ++ extranonce.data, sequence)] := rfl
  rw [Transaction.serializeBase, input, encode_null_input]
  simp only [List.length_append, List.length_replicate, Bytes.toLE_length, total,
    List.length_singleton]
  omega

/-- The coinbase of a credited share has the share's extranonce at the end of its script, and
the extranonce starts with the channel id. -/
private theorem earned_coinbase (started : Pool.start block = .ok p₀) {r : Credit}
    (earned : r.Earned X pool p₀ actions) :
    r.coinbaseTx.Valid ∧ r.channel.extranoncePrefix = extranoncePrefixOf r.share.channelId ∧
    ∃ version sequence lockTime scriptPrefix payout rest witness,
      r.coinbaseTx = minerCoinbase version sequence lockTime (scriptPrefix ++
        (buildFullExtranonce r.channel.extranoncePrefix r.share.extranonce.val).data) payout rest
        witness := by
  obtain ⟨q, _, pc, _, _, reached, _, found, _, channel, _⟩ := earned.judged
  -- the job is one that the connection built from a published template
  obtain ⟨inputs, served⟩ := (Pool.run_serves started reached).present _ pc found
  obtain ⟨j, member, sourced⟩ := Connection.run_jobs served.ran channel earned.current
  obtain ⟨k, at_k⟩ := List.mem_iff_getElem?.mp (served.published j member)
  obtain ⟨_, _, built⟩ := (Pool.run_published started reached).built k _ at_k
  obtain ⟨_, _, _, _, _, _, _, _, count, outs, _⟩ := buildRawTemplate_ok built
  obtain ⟨script, coinb1, coinb2, short⟩ := sourced.coinbase
  have parsed := earned.parsed
  refine ⟨(transaction.decodeAll_canonical parsed).1,
    ((Connection.run_allocated served.ran).identified _ _ channel).2, ?_⟩
  rw [shareCoinbase, coinb1, coinb2, deserialize_parts (coinb2 ▸ short) count outs] at parsed
  exact ⟨_, _, _, _, _, _, _, (Option.some.inj parsed).symm⟩

/-- Credits for one header are for one coinbase, up to its witness, and so for one extranonce
and one channel id, unless two of the strings hashed for them collide. -/
theorem Credit.Earned.same_header (started : Pool.start block = .ok p₀) {r r' : Credit}
    (earned : r.Earned X pool p₀ actions) (earned' : r'.Earned X pool p₀ actions)
    (same : r.header = r'.header) :
    Collides X.sha256d (r.preimages X) (r'.preimages X) ∨
      r.coinbaseTx.serializeBase = r'.coinbaseTx.serializeBase ∧
      buildFullExtranonce r.channel.extranoncePrefix r.share.extranonce.val =
        buildFullExtranonce r'.channel.extranoncePrefix r'.share.extranonce.val ∧
      r.share.channelId = r'.share.channelId := by
  obtain ⟨valid, identified, version, sequence, lockTime, scriptPrefix, payout, rest, witness,
    coinbase⟩ := earned_coinbase started earned
  obtain ⟨valid', identified', version', sequence', lockTime', scriptPrefix', payout', rest',
    witness', coinbase'⟩ := earned_coinbase started earned'
  have long : r.coinbaseTx.serializeBase.length ≠ 64 := by
    rw [coinbase]
    exact minerCoinbase_long _ _ _ _ _ _ _ _
  have long' : r'.coinbaseTx.serializeBase.length ≠ 64 := by
    rw [coinbase']
    exact minerCoinbase_long _ _ _ _ _ _ _ _
  have roots := congrArg Header.merkleRoot same
  rw [earned.header, earned'.header] at roots
  -- equal roots come from equal leaves, and the leaves spell the coinbases
  rcases leaf_eq_of_foldBranch_eq long long' roots with collides | leaves
  · exact .inl collides
  right
  obtain ⟨_, input, _, _⟩ := Transaction.serializeBase_injective valid valid' leaves
  have scripts : scriptPrefix ++
      (buildFullExtranonce r.channel.extranoncePrefix r.share.extranonce.val).data =
      scriptPrefix' ++
        (buildFullExtranonce r'.channel.extranoncePrefix r'.share.extranonce.val).data := by
    rw [coinbase, coinbase'] at input
    exact congrArg (fun b : TxIn.Base => b.2.1) (List.cons.inj input).1
  -- the extranonce is the end of the script, and of a fixed length
  have extranonces := Bytes.ext
    (List.append_inj' scripts ((Bytes.size _).trans (Bytes.size _).symm)).2
  have prefixes := extranoncePrefix_eq extranonces
  rw [identified, identified'] at prefixes
  exact ⟨leaves, extranonces, extranoncePrefixOf_injective prefixes⟩

/-- Every share event is a credit that left its connection, and every credit is earned by a
message of its own. Two credits for one header are for the same share data, the same coinbase
and the same channel id, unless two of the strings hashed for them collide. -/
theorem credits_are_earned (started : Pool.start block = .ok p₀)
    (ran : Pool.run X pool p₀ actions = some p) :
    p.events.Perm (p.connections.flatMap PoolConnection.reported) ∧
    (∀ (c : Nat) pc (n : Nat) event header, p.connections[c]? = some pc →
      pc.conn.effects[n]? = some (.credit event header) →
      ∃ r : Credit, r.connection = c ∧ r.index = n ∧ r.event = event ∧ r.header = header ∧
        r.Earned X pool p₀ actions) ∧
    ∀ r r' : Credit, r.Earned X pool p₀ actions → r'.Earned X pool p₀ actions →
      (r.message = r'.message → r.connection = r'.connection ∧ r.index = r'.index) ∧
      (r.header = r'.header →
        Collides X.sha256d (r.preimages X) (r'.preimages X) ∨
        r.coinbaseTx.serializeBase = r'.coinbaseTx.serializeBase ∧
        buildFullExtranonce r.channel.extranoncePrefix r.share.extranonce.val =
          buildFullExtranonce r'.channel.extranoncePrefix r'.share.extranonce.val ∧
        r.share.channelId = r'.share.channelId ∧ r.share.version = r'.share.version ∧
        r.share.ntime = r'.share.ntime ∧ r.share.nonce = r'.share.nonce) := by
  refine ⟨Pool.run_reported started ran, fun c pc n event header found effect =>
    Pool.run_earned started ran found effect, fun r r' earned earned' =>
      ⟨earned.same_message earned', fun same => ?_⟩⟩
  rcases earned.same_header started earned' same with collides | ⟨coinbase, extranonce, channel⟩
  · exact .inl collides
  · rw [earned.header, earned'.header] at same
    exact .inr ⟨coinbase, extranonce, channel, congrArg Header.version same,
      congrArg Header.time same, congrArg Header.nonce same⟩

/-- The share of the test network, submitted twice. -/
def doubleActions : List Action :=
  solveActions ++ [.frame 0 (.submitSharesExtended (some regtestShare)) 1700000020 [],
    .perform 0, .perform 0, .perform 0]

/-- The header that a credit is for. -/
def Effect.creditHeader? : Effect → Option Header
  | .credit _ header => some header
  | _ => none

private theorem creditHeader?_eq_some {e : Option Effect} {header : Header}
    (h : e.bind Effect.creditHeader? = some header) :
    ∃ event, e = some (.credit event header) := by
  obtain ⟨e, rfl, h⟩ := Option.bind_eq_some_iff.mp h
  cases e with
  | credit event header' =>
    cases h
    exact ⟨event, rfl⟩
  | _ => cases h

/-- Both are acknowledged, and both are credited for the same header. -/
private theorem doubleActions_credits :
    let p := regtestAfter doubleActions
    Pool.run regtestExternals regtestAddress regtestPool doubleActions = some p ∧
      ∃ pc event event' header, p.connections[0]? = some pc ∧ pc.performed = 10 ∧
        pc.conn.effects[5]? = some (accepted regtestShare) ∧
        pc.conn.effects[6]? = some (.credit event header) ∧
        pc.conn.effects[8]? = some (accepted regtestShare) ∧
        pc.conn.effects[9]? = some (.credit event' header) := by
  have checks : (Pool.run regtestExternals regtestAddress regtestPool doubleActions).isSome ∧
      ((regtestAfter doubleActions).connections[0]?).isSome ∧
      ∀ pc ∈ (regtestAfter doubleActions).connections[0]?, pc.performed = 10 ∧
      pc.conn.effects[5]? = some (accepted regtestShare) ∧
      (pc.conn.effects[6]?).bind Effect.creditHeader? =
        some (shareHeader regtestExternals regtestJob regtestCoinbaseTx regtestShare) ∧
      pc.conn.effects[8]? = some (accepted regtestShare) ∧
      (pc.conn.effects[9]?).bind Effect.creditHeader? =
        some (shareHeader regtestExternals regtestJob regtestCoinbaseTx regtestShare) := by
    decide +kernel
  obtain ⟨runs, connected, checks⟩ := checks
  obtain ⟨pc, found⟩ := Option.isSome_iff_exists.mp connected
  obtain ⟨performed, answer, credit, answer', credit'⟩ := checks pc found
  obtain ⟨event, credit⟩ := creditHeader?_eq_some credit
  obtain ⟨event', credit'⟩ := creditHeader?_eq_some credit'
  exact ⟨regtestAfter_ran runs, pc, event, event', _, found, performed, answer,
    credit, answer', credit'⟩

/-- Work is not credited at most once. -/
theorem share_credited_twice :
    ¬∀ actions p, Pool.run regtestExternals regtestAddress regtestPool actions = some p →
      ∀ (c c' n n' : Nat) pc pc' event event' header header',
        p.connections[c]? = some pc → p.connections[c']? = some pc' →
        n < pc.performed → n' < pc'.performed →
        pc.conn.effects[n]? = some (.credit event header) →
        pc'.conn.effects[n']? = some (.credit event' header') →
        (c, n) ≠ (c', n') → header ≠ header' := by
  intro once
  obtain ⟨ran, pc, event, event', header, found, performed, _, credit, _, credit'⟩ :=
    doubleActions_credits
  -- effects 6 and 9 are the two credits
  exact once doubleActions _ ran 0 0 6 9 pc pc event event' header header found found
    (by omega) (by omega) credit credit' (by decide) rfl

/-- The two credits are for two messages. -/
theorem credits_are_earned_twice :
    ∃ r r' : Credit, r.Earned regtestExternals regtestAddress regtestPool doubleActions ∧
      r'.Earned regtestExternals regtestAddress regtestPool doubleActions ∧
      r.header = r'.header ∧ r.message ≠ r'.message := by
  obtain ⟨ran, pc, event, event', header, found, _, _, credit, _, credit'⟩ :=
    doubleActions_credits
  obtain ⟨_, earned, separate⟩ := credits_are_earned regtestPool_started ran
  obtain ⟨r, _, index, _, header_, earns⟩ := earned 0 pc 6 event header found credit
  obtain ⟨r', _, index', _, header_', earns'⟩ := earned 0 pc 9 event' header found credit'
  refine ⟨r, r', earns, earns', header_.trans header_'.symm, fun same => ?_⟩
  have equal := ((separate r r' earns earns').1 same).2
  omega

end MiningPool
