import MiningPool.Pool.Runs
import MiningPool.Stratum.Coinbase

/-!
# Search spaces

Which channels of the pool can be handed the same coinbase. An extranonce prefix comes
from the channel id alone and ids start over on every connection, so channels of one
connection are always apart, and channels of two connections when they pay to different
scripts.
-/

namespace MiningPool

open Bitcoin Codec

variable {X : Externals} {pool : String} {p p₀ : Pool} {actions : List Action}
  {block : BlockTemplate}

/-! ### Coinbases of one template -/

private theorem coinb2_injective {raw : RawTemplate} {script script' : Script}
    (short : script.length < 2 ^ 64) (short' : script'.length < 2 ^ 64)
    (same : (jobParts raw script).coinb2 = (jobParts raw script').coinb2) : script = script' := by
  simp only [jobParts, buildSv2CoinbaseFromTdp, List.append_assoc] at same
  -- before the payout script the suffixes are the same
  have payouts := List.append_cancel_left (List.append_cancel_left same)
  obtain ⟨payout, _⟩ := txOut.encode_injective (txOut_valid _ |>.mpr short)
    (txOut_valid _ |>.mpr short') payouts
  exact congrArg TxOut.scriptPubkey payout

/-- For one template and whole extranonces, the coinbases of two channels are the same only
if prefix, extranonce and payout script are. -/
theorem shareCoinbase_eq_iff {a b : ChannelInfo} {i j : UInt32} {raw : RawTemplate}
    {snphA snphB : SetNewPrevHash} {jobA jobB : NewExtendedMiningJob} {infoA infoB : JobInfo}
    (builtA : buildJobMessages X a i raw = .ok (snphA, jobA, infoA))
    (builtB : buildJobMessages X b j raw = .ok (snphB, jobB, infoB)) (x y : Bytes 4) :
    shareCoinbase a infoA x.data = shareCoinbase b infoB y.data ↔
      a.extranoncePrefix = b.extranoncePrefix ∧ x = y ∧
        X.addressScript a.minerAddress = X.addressScript b.minerAddress := by
  obtain ⟨scriptA, knownA, coinb1A, coinb2A, _⟩ := buildJobMessages_ok builtA
  obtain ⟨scriptB, knownB, coinb1B, coinb2B, _⟩ := buildJobMessages_ok builtB
  have free : infoA.coinb1 = infoB.coinb1 := coinb1A.trans coinb1B.symm
  simp only [shareCoinbase, buildFullExtranonce_four, knownA, knownB, free, List.append_assoc,
    List.append_cancel_left_eq]
  constructor
  · -- the parts are of fixed lengths, so they can be read off one after the other
    intro same
    obtain ⟨prefixes, rest⟩ := List.append_inj same
      (a.extranoncePrefix.size.trans b.extranoncePrefix.size.symm)
    obtain ⟨extranonces, suffixes⟩ := List.append_inj rest (x.size.trans y.size.symm)
    rw [coinb2A, coinb2B] at suffixes
    have scripts := coinb2_injective ((payout_script_short builtA knownA).trans_lt (by decide))
      ((payout_script_short builtB knownB).trans_lt (by decide)) suffixes
    exact ⟨Bytes.ext prefixes, Bytes.ext extranonces, congrArg some scripts⟩
  · rintro ⟨prefixes, rfl, scripts⟩
    cases scripts
    rw [prefixes, coinb2A, coinb2B]

/-- A job is built for a channel whenever it is for another one that pays the same script. -/
private theorem buildJobMessages_of_script {a b : ChannelInfo} {i : UInt32} {raw : RawTemplate}
    {messages : SetNewPrevHash × NewExtendedMiningJob × JobInfo}
    (same : X.addressScript a.minerAddress = X.addressScript b.minerAddress)
    (built : buildJobMessages X a i raw = .ok messages) (j : UInt32) :
    ∃ messages', buildJobMessages X b j raw = .ok messages' := by
  simp only [buildJobMessages, bind_eq_ok, scriptFromAddress_eq_ok] at built ⊢
  obtain ⟨script, known, coinb1, first, coinb2, second, _⟩ := built
  exact ⟨_, script, same ▸ known, coinb1, first, coinb2, second, rfl⟩

/-- No template and no extranonces give the two channels the same coinbase. -/
def ChannelInfo.Apart (X : Externals) (a b : ChannelInfo) : Prop :=
  ∀ raw i j snphA jobA infoA snphB jobB infoB,
    buildJobMessages X a i raw = .ok (snphA, jobA, infoA) →
    buildJobMessages X b j raw = .ok (snphB, jobB, infoB) →
    ∀ x y : Bytes 4, shareCoinbase a infoA x.data ≠ shareCoinbase b infoB y.data

/-! ### Channels and requests -/

/-- Every open request of a live connection got its channel, and a job for it was built. -/
def Connection.Complete (X : Externals) (pool : String) (past : List Input) (c : Connection) :
    Prop :=
  c.live = true → (opensOf past).length ≤ 2 ^ 32 → ∀ (k : Nat) msg, (opensOf past)[k]? = some msg →
    ∃ ch, c.state.channels.get? (UInt32.ofNat k) = some ch ∧
      ch.minerAddress = parseMinerAddress X msg.userIdentity pool ∧
      ∃ jobId raw messages, buildJobMessages X ch jobId raw = .ok messages

private theorem complete_opened {past : List Input} {c : Connection}
    {msg : OpenExtendedMiningChannel} {template : RawTemplate} {info : JobInfo}
    {messages : SetNewPrevHash × NewExtendedMiningJob × JobInfo} (live : c.live = true)
    (allocated : c.Allocated X pool past) (holds : c.Complete X pool past)
    (built : buildJobMessages X (openedChannel X c.state msg template) c.state.nextJobId template =
      .ok messages) (bound : (opensOf past ++ [msg]).length ≤ 2 ^ 32) {k : Nat}
    {asked : OpenExtendedMiningChannel} (at_k : (opensOf past ++ [msg])[k]? = some asked) :
    ∃ ch, ((c.state.opened X msg template).setCurrentJob c.state.nextChannelId
        info).channels.get? (UInt32.ofNat k) = some ch ∧
      ch.minerAddress = parseMinerAddress X asked.userIdentity pool ∧
      ∃ jobId raw messages, buildJobMessages X ch jobId raw = .ok messages := by
  rw [List.length_append, List.length_singleton] at bound
  have size : UInt32.size = 2 ^ 32 := rfl
  rw [setCurrentJob_get?, ConnectionState.opened, KeyedTable.get?_insert]
  rw [List.getElem?_append] at at_k
  split at at_k
  next before =>
    -- an earlier request: ids do not wrap around this early
    obtain ⟨ch, found, address, building⟩ := holds live (by omega) k asked at_k
    have other : UInt32.ofNat k ≠ c.state.nextChannelId := by
      intro same
      have values := congrArg UInt32.toNat same
      rw [allocated.nextChannelId, UInt32.toNat_ofNat_of_lt' (by omega),
        UInt32.toNat_ofNat_of_lt' (by omega)] at values
      omega
    refine ⟨ch, ?_, address, building⟩
    rw [if_neg other, found, Option.map_some, if_neg other]
  next after =>
    -- the new request
    rw [List.getElem?_singleton] at at_k
    split at at_k
    next zero =>
      cases at_k
      have same : UInt32.ofNat k = c.state.nextChannelId := by
        rw [allocated.nextChannelId]
        congr 1
        omega
      refine ⟨{ openedChannel X c.state msg template with currentJob := some info }, ?_, ?_,
        c.state.nextJobId, template, messages, built⟩
      · rw [if_pos same, Option.map_some, if_pos same]
      · rw [← allocated.poolAddress]
        rfl
    · cases at_k

theorem Connection.run_complete {dbTx : Bool} {inputs : List Input} {c : Connection}
    (ran : run X dbTx (new pool) inputs = some c) : c.Complete X pool inputs := by
  refine (Execution.run_history
    (fun past c => c.Allocated X pool past ∧ c.Complete X pool past) ?_ ?_ ran).2
  · intro past c i c' holds stepped
    obtain ⟨allocated, holds⟩ := holds
    have live := step_live stepped
    have cases_ := step_cases stepped
    refine ⟨step_allocated stepped allocated, ?_⟩
    intro live' bound k asked at_k
    rw [opensOf_append] at bound at_k
    -- an input that is no request and keeps the channels
    have kept (quiet : i.opens = none) (same : c'.state = c.state) :
        ∃ ch, c'.state.channels.get? (UInt32.ofNat k) = some ch ∧
          ch.minerAddress = parseMinerAddress X asked.userIdentity pool ∧
          ∃ jobId raw messages, buildJobMessages X ch jobId raw = .ok messages := by
      rw [quiet, Option.toList_none, List.append_nil] at bound at_k
      rw [same]
      exact holds live bound k asked at_k
    cases cases_ with
    | unanswered _ _ dead => exact absurd (dead.symm.trans live') (by decide)
    | unserved _ _ _ _ dead => exact absurd (dead.symm.trans live') (by decide)
    | opened built state =>
      rw [state]
      exact complete_opened live allocated holds built bound at_k
    | submitted _ state => exact kept rfl state
    | unhandled state _ notOpen => exact kept (Stepped.opens_unhandled notOpen) state
    | broadcast _ _ state =>
      -- a broadcast may give a channel a new job but opens and closes none
      obtain ⟨ch, found, address, jobId, raw, messages, built⟩ := holds live
        (by simpa [Input.opens] using bound) k asked (by simpa [Input.opens] using at_k)
      rcases state.channel (UInt32.ofNat k) with same | ⟨ch', info, found', _, eq⟩
      · exact ⟨ch, same ▸ found, address, jobId, raw, messages, built⟩
      · rw [found, Option.some.injEq] at found'
        subst found'
        exact ⟨{ ch with currentJob := some info }, eq, address, jobId, raw, messages, built⟩
  · refine ⟨allocated_new pool, fun _ _ k asked at_k => ?_⟩
    cases at_k

/-! ### Channels of the pool -/

/-- The connection is served and its peer has not hung up. -/
def PoolConnection.Open (pc : PoolConnection) : Prop := pc.conn.live = true ∧ pc.closed = false

instance (pc : PoolConnection) : Decidable pc.Open := inferInstanceAs (Decidable (_ ∧ _))

namespace Pool

/-- Connection `c` is open. -/
def IsOpen (p : Pool) (c : Nat) : Prop := ∃ pc, p.connections[c]? = some pc ∧ pc.Open

/-- Connection `c` is open and has `ch` as its channel `id`. -/
def HasChannel (p : Pool) (c : Nat) (id : UInt32) (ch : ChannelInfo) : Prop :=
  ∃ pc, p.connections[c]? = some pc ∧ pc.Open ∧ pc.conn.state.channels.get? id = some ch

/-- No two open channels can be handed the same coinbase. -/
def Apart (X : Externals) (p : Pool) : Prop :=
  ∀ c id ch c' id' ch', p.HasChannel c id ch → p.HasChannel c' id' ch' → (c, id) ≠ (c', id') →
    ch.Apart X ch'

/-- The script that a channel pays which was opened by a request. -/
def payoutScript (X : Externals) (pool : String) (msg : OpenExtendedMiningChannel) :
    Option Script :=
  X.addressScript (parseMinerAddress X msg.userIdentity pool)

variable (started : Pool.start block = .ok p₀) (ran : Pool.run X pool p₀ actions = some p)
  (few : ∀ c, (Pool.opensOf c actions).length < 2 ^ 32)

include started ran few

/-- A channel is the one that its id counts requests to. -/
private theorem HasChannel.requested {c : Nat} {id : UInt32} {ch : ChannelInfo}
    (has : p.HasChannel c id ch) : ch.extranoncePrefix = extranoncePrefixOf id ∧
      ∃ msg, (Pool.opensOf c actions)[id.toNat]? = some msg ∧
        X.addressScript ch.minerAddress = payoutScript X pool msg := by
  obtain ⟨pc, found, _, channel⟩ := has
  obtain ⟨inputs, served⟩ := (run_serves started ran).present c pc found
  have allocated := Connection.run_allocated served.ran
  obtain ⟨_, msg, opened, asked⟩ := allocated.requested id ch channel
  have at_id := opened.at_id (by rw [served.opens]; exact (few c).le)
  rw [served.opens] at at_id
  exact ⟨(allocated.identified id ch channel).2, msg, at_id, by rw [asked.address, payoutScript]⟩

/-- And on an open connection every request has led to one. -/
private theorem IsOpen.granted {c : Nat} (open_ : p.IsOpen c) {k : Nat}
    {msg : OpenExtendedMiningChannel} (at_k : (Pool.opensOf c actions)[k]? = some msg) :
    ∃ ch, p.HasChannel c (UInt32.ofNat k) ch ∧
      X.addressScript ch.minerAddress = payoutScript X pool msg ∧
      ∃ jobId raw messages, buildJobMessages X ch jobId raw = .ok messages := by
  obtain ⟨pc, found, live, closed⟩ := open_
  obtain ⟨inputs, served⟩ := (run_serves started ran).present c pc found
  obtain ⟨ch, channel, address, building⟩ := Connection.run_complete served.ran live
    (by rw [served.opens]; exact (few c).le) k msg (by rw [served.opens, at_k])
  exact ⟨ch, ⟨pc, found, ⟨live, closed⟩, channel⟩, by rw [address, payoutScript], building⟩

/-- Two open channels can be handed the same coinbase exactly when they are on two
connections whose requests of the same number pay the same script. -/
theorem channels_apart_iff : p.Apart X ↔
    ∀ c c' (k : Nat) msg msg' script, c ≠ c' → p.IsOpen c → p.IsOpen c' →
      (Pool.opensOf c actions)[k]? = some msg → (Pool.opensOf c' actions)[k]? = some msg' →
      payoutScript X pool msg = some script → payoutScript X pool msg' ≠ some script := by
  constructor
  · intro apart c c' k msg msg' script other open_ open_' at_k at_k' pays pays'
    obtain ⟨ch, has, script_, jobId, raw, ⟨snph, job, info⟩, built⟩ :=
      open_.granted started ran few at_k
    obtain ⟨ch', has', script_', _⟩ := open_'.granted started ran few at_k'
    have same : X.addressScript ch.minerAddress = X.addressScript ch'.minerAddress := by
      rw [script_, script_', pays, pays']
    obtain ⟨⟨snph', job', info'⟩, built'⟩ := buildJobMessages_of_script same built jobId
    -- the same extranonce on both, of which any would do
    refine apart c _ ch c' _ ch' has has' (fun eq => other (Prod.mk.inj eq).1) raw jobId jobId
      snph job info snph' job' info' built built' (Bytes.zeros 4) (Bytes.zeros 4) ?_
    have prefixes := (has.requested started ran few).1.trans
      (has'.requested started ran few).1.symm
    exact (shareCoinbase_eq_iff built built' _ _).mpr ⟨prefixes, rfl, same⟩
  · -- equal coinbases have equal ids, and the ids count the requests
    intro differ c id ch c' id' ch' has has' distinct raw i j snph job info snph' job' info' built
      built' x y equal
    obtain ⟨prefixes, _, same⟩ := (shareCoinbase_eq_iff built built' x y).mp equal
    obtain ⟨prefix_, msg, at_id, script_⟩ := has.requested started ran few
    obtain ⟨prefix_', msg', at_id', script_'⟩ := has'.requested started ran few
    obtain rfl : id = id' :=
      extranoncePrefixOf_injective (prefix_.symm.trans (prefixes.trans prefix_'))
    obtain ⟨script, known, _⟩ := buildJobMessages_ok built
    refine differ c c' id.toNat msg msg' script (fun same => distinct (by rw [same])) ?_ ?_ at_id
      at_id' (by rw [← script_, known]) (by rw [← script_', ← same, known])
    · obtain ⟨pc, found, open_, _⟩ := has
      exact ⟨pc, found, open_⟩
    · obtain ⟨pc, found, open_, _⟩ := has'
      exact ⟨pc, found, open_⟩

end Pool

/-- The address of an anchor output, and its script. -/
def anchorAddress : String := "bc1pfees9rn5nz"

def anchorScript : Script := [0x51, 0x02, 0x4e, 0x73]

/-- A parser that knows two addresses. -/
def apartExternals : Externals where
  sha256d := regtestExternals.sha256d
  addressScript address :=
    if address = regtestAddress then some regtestScript
    else if address = anchorAddress then some anchorScript
    else none

def anchorOpen : OpenExtendedMiningChannel := { regtestOpen with userIdentity := anchorAddress }

/-- Two connections, each with a channel, that pay to two scripts. -/
def apartActions : List Action :=
  [.accept, .accept, .frame 0 (.openExtendedMiningChannel (some regtestOpen)) 1700000000 [],
    .frame 1 (.openExtendedMiningChannel (some anchorOpen)) 1700000000 []]

theorem channels_apart_iff_regtest :
    ∃ p ch ch', Pool.run apartExternals regtestAddress regtestPool apartActions = some p ∧
      p.HasChannel 0 0 ch ∧ p.HasChannel 1 0 ch' ∧ p.Apart apartExternals := by
  have runs : (Pool.run apartExternals regtestAddress regtestPool apartActions).any (fun p =>
      (p.connections[0]?.any fun pc => pc.Open ∧ (pc.conn.state.channels.get? 0).isSome) ∧
        p.connections[1]?.any fun pc => pc.Open ∧ (pc.conn.state.channels.get? 0).isSome) := by
    decide +kernel
  obtain ⟨p, ran, first, second⟩ := Execution.exists_of_any runs
  obtain ⟨pc, found, open_, has⟩ := Execution.exists_of_any first
  obtain ⟨pc', found', open_', has'⟩ := Execution.exists_of_any second
  obtain ⟨ch, channel⟩ := Option.isSome_iff_exists.mp has
  obtain ⟨ch', channel'⟩ := Option.isSome_iff_exists.mp has'
  refine ⟨p, ch, ch', ran, ⟨pc, found, open_, channel⟩, ⟨pc', found', open_', channel'⟩, ?_⟩
  have few (c : Nat) : (Pool.opensOf c apartActions).length < 2 ^ 32 :=
    (List.length_filterMap_le _ _).trans_lt (by decide)
  refine (Pool.channels_apart_iff regtestPool_started ran few).mpr ?_
  -- each connection has made one request
  have asked {c k : Nat} {msg : OpenExtendedMiningChannel}
      (at_k : (Pool.opensOf c apartActions)[k]? = some msg) :
      c = 0 ∧ Pool.payoutScript apartExternals regtestAddress msg = some regtestScript ∨
        c = 1 ∧ Pool.payoutScript apartExternals regtestAddress msg = some anchorScript := by
    obtain ⟨a, member, opens⟩ := List.mem_filterMap.mp (List.mem_of_getElem? at_k)
    simp only [apartActions, List.mem_cons, List.not_mem_nil, or_false] at member
    rcases member with rfl | rfl | rfl | rfl
    · cases opens
    · cases opens
    · obtain ⟨own, eq⟩ := Option.ite_none_right_eq_some.mp opens
      cases eq
      exact .inl ⟨own.symm, by decide +kernel⟩
    · obtain ⟨own, eq⟩ := Option.ite_none_right_eq_some.mp opens
      cases eq
      exact .inr ⟨own.symm, by decide +kernel⟩
  intro c c' k msg msg' script other _ _ at_k at_k' pays pays'
  have two : regtestScript ≠ anchorScript := by decide
  rcases asked at_k with ⟨rfl, one⟩ | ⟨rfl, one⟩ <;>
    rcases asked at_k' with ⟨rfl, another⟩ | ⟨rfl, another⟩
  · exact other rfl
  · exact two (Option.some.inj ((one.symm.trans pays).trans (pays'.symm.trans another)))
  · exact two (Option.some.inj (another.symm.trans (pays'.trans (pays.symm.trans one))))
  · exact other rfl

/-- Two miners of one address, each on a connection of its own. -/
def overlapActions : List Action :=
  [.accept, .accept, .frame 0 (.openExtendedMiningChannel (some regtestOpen)) 1700000000 [],
    .frame 1 (.openExtendedMiningChannel (some regtestOpen)) 1700000000 []]

/-- Their first channels search the same space. -/
theorem channels_overlap :
    Pool.run regtestExternals regtestAddress regtestPool overlapActions =
        some (regtestAfter overlapActions) ∧
      (regtestAfter overlapActions).HasChannel 0 0 regtestChannel ∧
      (regtestAfter overlapActions).HasChannel 1 0 regtestChannel ∧
      ¬(regtestAfter overlapActions).Apart regtestExternals := by
  have checks : (Pool.run regtestExternals regtestAddress regtestPool overlapActions).isSome ∧
      (regtestAfter overlapActions).connections.length = 2 ∧
      ∀ c < 2, ∀ pc ∈ (regtestAfter overlapActions).connections[c]?,
        pc.Open ∧ pc.conn.state.channels.get? 0 = some regtestChannel := by decide +kernel
  obtain ⟨runs, two, checks⟩ := checks
  -- both connections have channel 0
  have has (c : Nat) (inside : c < 2) :
      (regtestAfter overlapActions).HasChannel c 0 regtestChannel := by
    have found := List.getElem?_eq_getElem (two.symm ▸ inside)
    exact ⟨_, found, checks c inside _ found⟩
  refine ⟨regtestAfter_ran runs, has 0 (by decide), has 1 (by decide), ?_⟩
  intro apart
  exact apart 0 0 regtestChannel 1 0 regtestChannel (has 0 (by decide)) (has 1 (by decide))
    (by decide) regtestTemplate 1 1 _ _ _ _ _ _ legacyMessages_built legacyMessages_built
    (Bytes.zeros 4) (Bytes.zeros 4) rfl

end MiningPool
