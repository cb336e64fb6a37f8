import MiningPool.Pool.Records
import MiningPool.Pool.SearchSpace

/-!
# What a block pays

Whoever finds a block is paid by its coinbase, to the address in the identity that opened the
channel; an identity that spells none is paid for to the address of the pool. On the way from
that request to `submit_solution` the address is looked up, its script is put into a job, and
the job is joined with an extranonce and read back.

## Main result

`Pool.solutions_pay`: the block of every solution pays the whole reward to the script that the
request of its channel asked for, and the share is credited to the same address.
-/

namespace MiningPool

open Bitcoin

variable {X : Externals} {pool : String} {p p' p₀ : Pool} {a : Action} {actions : List Action}
  {block : BlockTemplate}

/-! ### What a solution pays -/

/-- The share `share` on a channel that `msg` opened was turned into a solution for `block`,
and the coinbase of the solution is `tx`. -/
structure Solution.Pays (X : Externals) (pool : String) (p : Pool) (actions : List Action)
    (s : Solution) (share : SubmitSharesExtended) (msg : OpenExtendedMiningChannel)
    (block : BlockTemplate) (tx : Transaction) : Prop where
  received : ∃ before now socket later, actions =
      before ++ .frame s.connection (.submitSharesExtended (some share)) now socket :: later ∧
    LastRequest (Pool.opensOf s.connection before) share.channelId msg
  numbers : s.data.version = share.version ∧ s.data.headerTimestamp = share.ntime ∧
    s.data.headerNonce = share.nonce
  client : p.clients[s.data.templateId]? = some block
  /-- The header that the node makes of the solution meets the target of the block. -/
  solved : assembledHeader X block s.data = some s.header ∧
    workHash X s.header ≤ networkTarget block.header.bits
  coinbase : deserialize s.data.coinbaseTx = some tx
  /-- One output has all the value; the others are those of the node without any. -/
  outputs : ∃ payout : TxOut, Pool.payoutScript X pool msg = some payout.scriptPubkey ∧
    payout.value.toNat = (block.coinbase.output.map fun o => o.value.toNat).sum ∧
    tx.output = payout :: block.coinbase.output.filter fun o => o.value = 0
  /-- The effect after the answer is the credit for it. -/
  credited : ∀ pc event header, p.connections[s.connection]? = some pc →
    pc.conn.effects[s.index + 2]? = some (.credit event header) →
    event.minerAddress = parseMinerAddress X msg.userIdentity pool ∧ header = s.header

/-! ### Effects that follow -/

/-- Effects are only added, and none once the connection is dead. -/
private theorem effects_later {q : Pool} {later : List Action} {c : Nat} {pc : PoolConnection}
    (ran : Pool.run X pool q later = some p) (found : q.connections[c]? = some pc) :
    ∃ pc' added, p.connections[c]? = some pc' ∧ pc'.conn.effects = pc.conn.effects ++ added ∧
      (pc.conn.live = false → pc'.conn.live = false ∧ added = []) := by
  refine Execution.run_invariant (fun p => ∃ (pc' : PoolConnection) (added : List Effect),
    p.connections[c]? = some pc' ∧ pc'.conn.effects = pc.conn.effects ++ added ∧
      (pc.conn.live = false → pc'.conn.live = false ∧ added = [])) ?_ ?_ ran
  · rintro p a p' ⟨pc₁, added, found, effects, frozen⟩ stepped
    obtain ⟨pc₂, found', touched⟩ := (Pool.step_cases stepped).stays found
    cases touched with
    | kept => exact ⟨_, added, found', effects, frozen⟩
    | performed => exact ⟨_, added, found', effects, frozen⟩
    | handled _ _ handled =>
      obtain ⟨more, grown⟩ := (Connection.step_cases handled).effects
      refine ⟨_, added ++ more, found', by rw [grown, effects, List.append_assoc], ?_⟩
      intro dead
      have live := Connection.step_live handled
      rw [(frozen dead).1] at live
      cases live
  · exact ⟨pc, [], found, (List.append_nil _).symm, fun dead => ⟨dead, rfl⟩⟩

/-- A share that leads to a solution leads to three effects. -/
private theorem shareEffects_solved {s : ConnectionState} {share : SubmitSharesExtended}
    {data : SubmitSolutionData} {header : Header}
    (member : .solution data header ∈ shareEffects X s share true) :
    ∃ channel job coinbaseTx, s.channels.get? share.channelId = some channel ∧
      channel.currentJob = some job ∧
      deserialize (shareCoinbase channel job share.extranonce.val) = some coinbaseTx ∧
      data = solutionOf job share (shareCoinbase channel job share.extranonce.val) ∧
      header = shareHeader X job coinbaseTx share ∧
      shareEffects X s share true = [.solution data header, accepted share,
        .credit (creditOf X channel share header) header] := by
  rcases shareEffects_cases member with ⟨_, eq⟩ |
    ⟨channel, job, coinbaseTx, found, current, quoted, parsed, met, eq | eq | ⟨eq, solves⟩⟩
  · cases eq
  · cases eq
  · cases eq
  · cases eq
    refine ⟨channel, job, coinbaseTx, found, current, parsed, rfl, rfl, ?_⟩
    rw [shareEffects_current found current quoted parsed, judgement, if_pos met, if_pos solves]
    rfl

/-- The credit two effects after a solution is the one of its share. -/
private theorem credit_of_solved {old added later : List Effect} {n : Nat}
    {data : SubmitSolutionData} {share : SubmitSharesExtended} {event event' : ShareEvent}
    {header header' : Header}
    (expected : added <+: [.solution data header, accepted share, .credit event header])
    (last : later = [] ∨ added = [.solution data header, accepted share, .credit event header])
    (new : old.length ≤ n) (solution : added[n - old.length]? = some (.solution data header))
    (credit : (old ++ added ++ later)[n + 2]? = some (.credit event' header')) :
    event' = event ∧ header' = header := by
  obtain ⟨rest, three⟩ := expected
  have within {k : Nat} {e : Effect} (at_k : added[k]? = some e) :
      [.solution data header, accepted share, .credit event header][k]? = some e := by
    rw [← three]
    exact getElem?_prefix at_k
  -- the solution is the first of the three
  have first : n = old.length := by
    have place := within solution
    match position : n - old.length with
    | 0 => omega
    | 1 =>
      rw [position] at place
      cases place
    | 2 =>
      rw [position] at place
      cases place
    | k + 3 =>
      rw [position] at place
      cases place
  subst first
  rw [List.append_assoc, List.getElem?_append_right (Nat.le_add_right _ 2),
    Nat.add_sub_cancel_left] at credit
  have third : [.solution data header, accepted share, .credit event header][2]? =
      some (.credit event' header') := by
    rcases last with rfl | whole
    · rw [List.append_nil] at credit
      exact within credit
    · rwa [whole] at credit
  cases third
  exact ⟨rfl, rfl⟩

/-! ### The share of a solution -/

/-- A solution comes from `share`, which was judged by `channel` and `job` in state `q` of the
pool, after the actions `before`. -/
structure Solution.Made (X : Externals) (pool : String) (p₀ p : Pool) (actions : List Action)
    (s : Solution) (before : List Action) (q : Pool) (pc : PoolConnection)
    (share : SubmitSharesExtended) (channel : ChannelInfo) (job : JobInfo) (tx : Transaction) :
    Prop where
  split : ∃ now socket later, actions =
    before ++ .frame s.connection (.submitSharesExtended (some share)) now socket :: later
  reached : Pool.run X pool p₀ before = some q
  found : q.connections[s.connection]? = some pc
  live : pc.conn.live = true
  opened : pc.conn.state.channels.get? share.channelId = some channel
  current : channel.currentJob = some job
  parsed : deserialize (shareCoinbase channel job share.extranonce.val) = some tx
  data : s.data = solutionOf job share (shareCoinbase channel job share.extranonce.val)
  credited : ∀ pc event header, p.connections[s.connection]? = some pc →
    pc.conn.effects[s.index + 2]? = some (.credit event header) →
    event = creditOf X channel share s.header ∧ header = s.header

private theorem run_made (started : Pool.start block = .ok p₀)
    (ran : Pool.run X pool p₀ actions = some p) {s : Solution} {pc : PoolConnection}
    (found : p.connections[s.connection]? = some pc)
    (effect : pc.conn.effects[s.index]? = some (.solution s.data s.header)) :
    ∃ before q pc share channel job tx,
      s.Made X pool p₀ p actions before q pc share channel job tx := by
  obtain ⟨before, a, q, q', pc₀, pc', i, origin⟩ := Pool.run_origin started ran found effect
  obtain ⟨later, split⟩ := origin.split
  -- only a share leads to a solution
  rcases (Connection.step_cases origin.handled).effect_cases origin.new origin.effect with
    ⟨_, eq⟩ | ⟨_, _, eq⟩ | ⟨share, template, now, socket, rfl, _⟩
  · cases eq
  · cases eq
  obtain rfl := Action.eq_of_inputFor_frame origin.input
  cases Connection.step_cases origin.handled with
  | unhandled _ _ _ notShare => exact absurd rfl (notShare share)
  | submitted added _ effects expected whole =>
    have effect' := origin.effect
    rw [effects, List.getElem?_append_right origin.new] at effect'
    obtain ⟨channel, job, tx, open_, current, parsed, data, header, three⟩ :=
      shareEffects_solved (expected.subset (List.mem_of_getElem? effect'))
    refine ⟨before, q, pc₀, share, channel, job, tx, ⟨now, socket, later, split⟩, origin.reached,
      origin.found, Connection.step_live origin.handled, open_, current, parsed, data, ?_⟩
    intro pc₁ event header' found₁ credit
    have reached := origin.reached
    rw [Pool.run] at ran reached
    rw [split, Execution.run_append, reached, Option.bind_some, Execution.run_cons,
      origin.stepped, Option.bind_some] at ran
    obtain ⟨pc₂, more, found₂, grown, frozen⟩ := effects_later ran origin.found'
    obtain rfl := Option.some.inj (found₁.symm.trans found₂)
    rw [grown, effects] at credit
    have last : more = [] ∨ added = shareEffects X pc₀.conn.state share true := by
      cases live : pc'.conn.live with
      | true => exact .inr (whole live)
      | false => exact .inl (frozen live).2
    rw [three] at expected last
    exact credit_of_solved expected last origin.new effect' credit

/-! ### Main result -/

/-- The coinbase of a share on a job that was built for its channel. -/
private theorem coinbase_pays {channel : ChannelInfo} {jobId : UInt32} {raw : RawTemplate}
    {snph : SetNewPrevHash} {job : NewExtendedMiningJob} {info : JobInfo} {templateId : Nat}
    (template : buildRawTemplate templateId block.header block.coinbase block.merklePath = .ok raw)
    (built : buildJobMessages X channel jobId raw = .ok (snph, job, info))
    {extranonce : List UInt8} {tx : Transaction}
    (parsed : deserialize (shareCoinbase channel info extranonce) = some tx) :
    ∃ payout : TxOut, X.addressScript channel.minerAddress = some payout.scriptPubkey ∧
      payout.value.toNat = (block.coinbase.output.map fun o => o.value.toNat).sum ∧
      tx.output = payout :: block.coinbase.output.filter fun o => o.value = 0 := by
  obtain ⟨_, _, _, _, _, _, _, value, count, outs, _⟩ := buildRawTemplate_ok template
  obtain ⟨script, known, pays⟩ := deserialize_job built count outs
    (buildFullExtranonce channel.extranoncePrefix extranonce)
  rw [← shareCoinbase, parsed, Option.some.injEq] at pays
  refine ⟨⟨raw.newTemplate.coinbaseTxValueRemaining, script⟩, known, value, ?_⟩
  rw [pays]
  rfl

/-- Every solution in the queue or submitted makes a block that pays the miner who found it. -/
theorem Pool.solutions_pay (started : Pool.start block = .ok p₀)
    (ran : Pool.run X pool p₀ actions = some p) :
    ∀ s ∈ p.sent, ∃ share msg block tx, s.Pays X pool p actions share msg block tx := by
  intro s member
  obtain ⟨pc, found, _, effect⟩ := run_traced started ran s member
  obtain ⟨raw, block', solved⟩ := run_solves started ran found effect
  obtain ⟨before, q, pc₀, share, channel, job, tx, made⟩ := run_made started ran found effect
  obtain ⟨now, socket, later, split⟩ := made.split
  -- the request of the channel
  obtain ⟨inputs, served⟩ := (run_serves started made.reached).present _ pc₀ made.found
  obtain ⟨msg, request, address⟩ := Connection.run_requested served.ran made.live made.opened
  rw [served.opens] at request
  -- the template of its job is that of the block client
  obtain ⟨e, sentAs⟩ := Connection.run_sent served.ran made.live share.channelId channel job
    made.opened made.current
  obtain ⟨_, _, ⟨j, given, rfl⟩, built⟩ := sentAs.built
  obtain ⟨k, at_k⟩ := List.mem_iff_getElem?.mp
    (published_subset split ran made.reached (served.published j given))
  obtain ⟨block'', client, template⟩ := (run_published started ran).built k _ at_k
  obtain ⟨_, _, templateId, _, _, _, _, _, _, _, _, _, prevHash⟩ := buildRawTemplate_ok template
  obtain ⟨_, _, _, _, _, _, sourced⟩ := buildJobMessages_ok built
  have own : s.data.templateId = k := by
    rw [made.data]
    exact sourced.templateId.trans templateId
  subst own
  obtain rfl : block'' = block' := Option.some.inj (client.symm.trans solved.client)
  obtain rfl : j.template = raw := Option.some.inj (at_k.symm.trans solved.published)
  obtain ⟨payout, script, value, outs⟩ := coinbase_pays template built made.parsed
  refine ⟨share, msg, block'', tx, ?_⟩
  constructor
  case received => exact ⟨before, now, socket, later, split, request⟩
  case numbers =>
    rw [made.data]
    exact ⟨rfl, rfl, rfl⟩
  case client => exact client
  case solved => exact ⟨solved.assembled, by simpa [prevHash] using solved.solves⟩
  case coinbase => rw [made.data, solutionOf, made.parsed]
  case outputs => exact ⟨payout, by rw [payoutScript, ← address, script], value, outs⟩
  case credited =>
    intro pc₁ event header found₁ credit
    obtain ⟨rfl, same⟩ := made.credited pc₁ event header found₁ credit
    exact ⟨address, same⟩

theorem solutions_pay_regtest :
    (regtestAfter solveActions).sent.length = 1 ∧ ∀ s ∈ (regtestAfter solveActions).sent,
      ∃ share msg block tx, s.Pays regtestExternals regtestAddress (regtestAfter solveActions)
        solveActions share msg block tx := by
  have one : (regtestAfter solveActions).sent.length = 1 := by decide +kernel
  exact ⟨one, Pool.solutions_pay regtestPool_started solveActions_ran⟩

end MiningPool
