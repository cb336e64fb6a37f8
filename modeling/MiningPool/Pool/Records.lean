import Mathlib.Data.List.TakeWhile
import MiningPool.Pool.Registered
import MiningPool.Stratum.Offers

/-!
# The records of a miner

The tables are keyed by the string that an identity leads to, and the coinbase pays to the
script of that string. One string has one script; a script has as many strings as the
parser takes spellings for it, and nothing chooses among them.

## Main result

`records_by_payout_text`: identities share a record if and only if their payout texts agree,
which for texts of one script means one network and one letter case; and every share in a record
is from a channel of such an identity and pays to the script of its key.
-/

namespace MiningPool

open Bitcoin

variable {X : Externals} {pool : String} {p p₀ : Pool} {actions : List Action}
  {block : BlockTemplate}

/-! ### Payout texts -/

/-- The identity is an address, or an address before a dot and the name of a worker. -/
def Spells (X : Externals) (identity address : String) : Prop :=
  '.' ∉ address.toList ∧
    (identity = address ∨ ∃ worker, identity = address ++ "." ++ worker) ∧
    (X.addressScript address).isSome

/-- The address that the identity spells, or else the pool's. -/
def IsPayoutText (X : Externals) (poolAddress identity text : String) : Prop :=
  Spells X identity text ∨ (∀ address, ¬Spells X identity address) ∧ text = poolAddress

private theorem takeWhile_of_spells {identity address : String}
    (spells : Spells X identity address) :
    String.ofList (identity.toList.takeWhile (· ≠ '.')) = address := by
  obtain ⟨undotted, spelled, _⟩ := spells
  have passes : ∀ c ∈ address.toList, decide (c ≠ '.') = true := by
    intro c member
    rw [decide_eq_true_eq]
    rintro rfl
    exact undotted member
  rcases spelled with rfl | ⟨worker, rfl⟩
  · rw [List.takeWhile_eq_self_iff.mpr passes, String.ofList_toList]
  · -- the dot ends the address
    have dot : ("." : String).toList = ['.'] := rfl
    rw [String.toList_append, String.toList_append, dot, List.append_assoc,
      List.takeWhile_append_of_pos passes]
    simp

private theorem spells_takeWhile {identity : String}
    (known : (X.addressScript (String.ofList (identity.toList.takeWhile (· ≠ '.')))).isSome) :
    Spells X identity (String.ofList (identity.toList.takeWhile (· ≠ '.'))) := by
  refine ⟨?_, ?_, known⟩
  · intro member
    rw [String.toList_ofList] at member
    have passes := List.mem_takeWhile_imp member
    simp at passes
  · have split := List.takeWhile_append_dropWhile (p := (· ≠ '.')) (l := identity.toList)
    have stops := List.head?_dropWhile_not (· ≠ '.') identity.toList
    -- what is left is nothing, or begins with the dot
    cases left : identity.toList.dropWhile (· ≠ '.') with
    | nil =>
      left
      rw [left, List.append_nil] at split
      rw [split, String.ofList_toList]
    | cons c worker =>
      right
      rw [left] at split stops
      obtain rfl : c = '.' := by simpa using stops
      refine ⟨String.ofList worker, String.toList_inj.mp (split.symm.trans ?_)⟩
      simp

/-- The string of an identity is its payout text, and it has no other. -/
private theorem parseMinerAddress_iff {poolAddress identity text : String} :
    parseMinerAddress X identity poolAddress = text ↔
      IsPayoutText X poolAddress identity text := by
  have parsed : parseMinerAddress X identity poolAddress =
      if (X.addressScript (String.ofList (identity.toList.takeWhile (· ≠ '.')))).isSome then
        String.ofList (identity.toList.takeWhile (· ≠ '.')) else poolAddress := by
    unfold parseMinerAddress scriptFromAddress
    simp only
    cases X.addressScript (String.ofList (identity.toList.takeWhile (· ≠ '.'))) <;> rfl
  rw [parsed]
  split
  next known =>
    have spells := spells_takeWhile known
    constructor
    · rintro rfl
      exact .inl spells
    · rintro (spells' | ⟨none, _⟩)
      · exact takeWhile_of_spells spells'
      · exact absurd spells (none _)
  next unknown =>
    have none : ∀ address, ¬Spells X identity address := by
      intro address spells
      have known := spells.2.2
      rw [← takeWhile_of_spells spells] at known
      exact unknown known
    constructor
    · rintro rfl
      exact .inr ⟨none, rfl⟩
    · rintro (spells | ⟨_, rfl⟩)
      · exact absurd spells (none text)
      · rfl

/-- With a valid pool address, the string of an identity always has a script. -/
theorem payout_known {poolAddress : String} (valid : (X.addressScript poolAddress).isSome)
    (identity : String) :
    (X.addressScript (parseMinerAddress X identity poolAddress)).isSome := by
  rcases parseMinerAddress_iff.mp (rfl : parseMinerAddress X identity poolAddress = _) with
    spells | ⟨_, fallback⟩
  · exact spells.2.2
  · rw [fallback]
    exact valid

/-! ### Spellings -/

/-- The other spelling of a bech32 address. -/
def upperCase (address : String) : String := String.ofList (address.toList.map Char.toUpper)

def lowerCase (address : String) : String := String.ofList (address.toList.map Char.toLower)

private theorem toLower_toUpper (c : Char) : c.toUpper.toLower = c.toLower := by
  by_cases lower : 97 ≤ c.toNat ∧ c.toNat ≤ 122
  · have letters : ∀ n : Fin 26, (Char.ofNat (97 + n)).toUpper.toLower =
        (Char.ofNat (97 + n)).toLower := by
      decide
    have own : c = Char.ofNat (97 + (c.toNat - 97)) := by
      rw [Nat.add_sub_cancel' lower.1, Char.ofNat_toNat]
    rw [own]
    exact letters ⟨c.toNat - 97, by omega⟩
  · have same : c.toUpper = c := by
      apply dif_neg
      rintro ⟨first, last⟩
      rw [UInt32.le_iff_toNat_le] at first last
      exact lower ⟨first, last⟩
    rw [same]

private theorem lowerCase_upperCase (address : String) :
    lowerCase (upperCase address) = lowerCase address := by
  rw [lowerCase, upperCase, String.toList_ofList, List.map_map, lowerCase]
  congr 1
  exact List.map_congr_left fun c _ => toLower_toUpper c

/-- A version, and a push of 2 to 40 bytes. -/
def IsWitnessProgram (script : Script) : Prop :=
  ∃ version push program, script = version :: push :: program ∧
    (version = 0 ∨ 0x51 ≤ version ∧ version ≤ 0x60) ∧ push.toNat = program.length ∧
    2 ≤ program.length ∧ program.length ≤ 40

/-- What the address parser documents. On each network a script has one text, if any, and the
parser takes the texts of all networks. The text of a witness program is in lower case, and is
also taken in upper case. -/
structure Spellings (X : Externals) (Network : Type) where
  textOf : Network → Script → Option String
  accepts : ∀ text script, X.addressScript text = some script ↔
    ∃ network canonical, textOf network script = some canonical ∧
      (text = canonical ∨ IsWitnessProgram script ∧ text = upperCase canonical)
  lower : ∀ network script canonical, textOf network script = some canonical →
    IsWitnessProgram script → lowerCase canonical = canonical

/-- The text is one of this network. -/
def Spellings.On {Network : Type} (S : Spellings X Network) (network : Network) (text : String) :
    Prop :=
  ∃ script canonical, S.textOf network script = some canonical ∧
    (text = canonical ∨ IsWitnessProgram script ∧ text = upperCase canonical)

/-- Texts with one script are the same text if they are of one network and in one case. -/
private theorem Spellings.eq_iff {Network : Type} (S : Spellings X Network) {text text' : String}
    {script : Script} (known : X.addressScript text = some script)
    (known' : X.addressScript text' = some script) :
    text = text' ↔ (∃ network, S.On network text ∧ S.On network text') ∧
      (lowerCase text = text ↔ lowerCase text' = text') := by
  constructor
  · rintro rfl
    obtain ⟨network, canonical, own, spelled⟩ := (S.accepts text script).mp known
    have on : S.On network text := ⟨script, canonical, own, spelled⟩
    exact ⟨⟨network, on, on⟩, Iff.rfl⟩
  rintro ⟨⟨network, on, on'⟩, case_⟩
  -- the text of the script on that network, up to the case
  have spelled {text : String} (known : X.addressScript text = some script)
      (on : S.On network text) : ∃ canonical, S.textOf network script = some canonical ∧
        (text = canonical ∨ IsWitnessProgram script ∧ text = upperCase canonical) := by
    obtain ⟨script', canonical, own, spelled⟩ := on
    have same := (S.accepts text script').mpr ⟨network, canonical, own, spelled⟩
    rw [known, Option.some.injEq] at same
    subst same
    exact ⟨canonical, own, spelled⟩
  obtain ⟨canonical, own, first⟩ := spelled known on
  obtain ⟨_, own', second⟩ := spelled known' on'
  obtain rfl := Option.some.inj (own.symm.trans own')
  have upper (witness : IsWitnessProgram script) :
      lowerCase canonical = canonical ∧ lowerCase (upperCase canonical) = canonical := by
    have lower := S.lower network script canonical own witness
    exact ⟨lower, (lowerCase_upperCase canonical).trans lower⟩
  rcases first with rfl | ⟨witness, rfl⟩ <;> rcases second with rfl | ⟨witness', rfl⟩
  · rfl
  · obtain ⟨lower, folded⟩ := upper witness'
    rw [folded] at case_
    exact case_.mp lower
  · obtain ⟨lower, folded⟩ := upper witness
    rw [folded] at case_
    exact (case_.mpr lower).symm
  · rfl

/-! ### What a share pays -/

/-- The share's hash is that of a header whose coinbase pays to the script. -/
def ShareEvent.PaysTo (X : Externals) (s : ShareEvent) (share : SubmitSharesExtended)
    (script : Script) : Prop :=
  ∃ channel job coinbaseTx value,
    deserialize (shareCoinbase channel job share.extranonce.val) = some coinbaseTx ∧
    s = creditOf X channel share (shareHeader X job coinbaseTx share) ∧
    coinbaseTx.output.head? = some ⟨value, script⟩

/-- Connection `c` received `share` on a channel that `msg` opened; it was credited to the string
of the identity in `msg`, and pays to the script of that string. -/
structure ShareEvent.MinedBy (X : Externals) (pool : String) (actions : List Action)
    (s : ShareEvent) (c : Nat) (share : SubmitSharesExtended) (msg : OpenExtendedMiningChannel) :
    Prop where
  received : ∃ before now socket later,
    actions = before ++ .frame c (.submitSharesExtended (some share)) now socket :: later ∧
    LastRequest (Pool.opensOf c before) share.channelId msg
  address : s.minerAddress = parseMinerAddress X msg.userIdentity pool
  pays : ∃ script, X.addressScript s.minerAddress = some script ∧ s.PaysTo X share script

/-- Every credit is for a share of a miner. -/
private theorem credit_mined (started : Pool.start block = .ok p₀)
    (ran : Pool.run X pool p₀ actions = some p) {c n : Nat} {pc : PoolConnection}
    {event : ShareEvent} {header : Header} (found : p.connections[c]? = some pc)
    (effect : pc.conn.effects[n]? = some (.credit event header)) :
    ∃ share msg, event.MinedBy X pool actions c share msg := by
  obtain ⟨before, a, q, q', pc₀, pc', i, origin⟩ := Pool.run_origin started ran found effect
  have effect := origin.effect
  -- only a share leads to a credit
  rcases (Connection.step_cases origin.handled).effect_cases origin.new effect with ⟨_, eq⟩ |
    ⟨_, _, eq⟩ | ⟨share, template, now, socket, rfl, added, expected, effects⟩
  · cases eq
  · cases eq
  rw [effects, List.getElem?_append_right origin.new] at effect
  have member := expected.subset (List.mem_of_getElem? effect)
  rcases shareEffects_cases member with ⟨_, eq⟩ |
    ⟨channel, job, coinbaseTx, open_, current, _, parsed, _, eq | eq | ⟨eq, _⟩⟩
  · cases eq
  · cases eq
  · cases eq
    obtain ⟨later, split⟩ := origin.split
    obtain rfl := Action.eq_of_inputFor_frame origin.input
    have live := Connection.step_live origin.handled
    obtain ⟨inputs, served⟩ := (Pool.run_serves started origin.reached).present c pc₀ origin.found
    obtain ⟨msg, request, address⟩ := Connection.run_requested served.ran live open_
    rw [served.opens] at request
    -- the job was built for the channel, from a template of a block
    obtain ⟨e, sentAs⟩ := Connection.run_sent served.ran live share.channelId channel job open_
      current
    obtain ⟨_, _, ⟨j, given, rfl⟩, built⟩ := sentAs.built
    obtain ⟨k, at_k⟩ := List.mem_iff_getElem?.mp (served.published j given)
    obtain ⟨_, _, template⟩ := (Pool.run_published started origin.reached).built k _ at_k
    obtain ⟨_, _, _, _, _, _, _, _, count, outs, _⟩ := buildRawTemplate_ok template
    obtain ⟨script, known, pays⟩ := deserialize_job built count outs
      (buildFullExtranonce channel.extranoncePrefix share.extranonce.val)
    have same := pays.symm.trans parsed
    rw [Option.some.injEq] at same
    refine ⟨share, msg, ⟨before, now, socket, later, split, request⟩, address, script, known,
      channel, job, coinbaseTx, j.template.newTemplate.coinbaseTxValueRemaining, parsed, rfl, ?_⟩
    rw [← same]
    rfl
  · cases eq

private theorem dbEvent?_share {e : Effect} {s : ShareEvent} (told : e.dbEvent? = some (.share s)) :
    ∃ header, e = .credit s header := by
  cases e with
  | credit event header =>
    cases told
    exact ⟨header, rfl⟩
  | wire => cases told
  | solution => cases told
  | connected => cases told

/-- So is every share that the database was told of. -/
theorem Pool.share_mined (started : Pool.start block = .ok p₀)
    (ran : Pool.run X pool p₀ actions = some p) {s : ShareEvent} (told : .share s ∈ p.events) :
    ∃ c share msg, s.MinedBy X pool actions c share msg := by
  -- some connection reported it
  rw [(Pool.run_reported started ran).mem_iff, List.mem_flatMap] at told
  obtain ⟨pc, member, reported⟩ := told
  obtain ⟨c, found⟩ := List.mem_iff_getElem?.mp member
  obtain ⟨e, left, told⟩ := List.mem_filterMap.mp reported
  obtain ⟨header, rfl⟩ := dbEvent?_share told
  obtain ⟨n, effect⟩ := List.mem_iff_getElem?.mp (List.mem_of_mem_take left)
  exact ⟨c, credit_mined started ran found effect⟩

/-! ### The tables -/

variable {start : Nat} {inputs : List WorkerInput} {w : Worker}

/-- Identities are mapped to one string if and only if their payout texts agree, and the string
has a script. Where the scripts agree, so do the strings if and only if they are spelled on one
network and in one case. In every database that the worker can leave behind, the accounts, the
minutes and the first connections are those of events grouped by that string, and every share
among them is under the string of the request that opened its channel, and pays to its script. -/
theorem records_by_payout_text (valid : (X.addressScript pool).isSome)
    (started : Pool.start block = .ok p₀) (ran : Pool.run X pool p₀ actions = some p)
    (received : eventsOf inputs <+: p.events)
    (worked : Execution.run Worker.step (Worker.new start) inputs = some w) :
    (∀ identity, (X.addressScript (parseMinerAddress X identity pool)).isSome ∧
      IsPayoutText X pool identity (parseMinerAddress X identity pool)) ∧
    (∀ identity identity' text text', IsPayoutText X pool identity text →
      IsPayoutText X pool identity' text' →
      (parseMinerAddress X identity pool = parseMinerAddress X identity' pool ↔ text = text')) ∧
    (∀ (Network : Type) (S : Spellings X Network) identity identity',
      let key := parseMinerAddress X identity pool
      let key' := parseMinerAddress X identity' pool
      X.addressScript key = X.addressScript key' →
      (key = key' ↔ (∃ network, S.On network key ∧ S.On network key') ∧
        (lowerCase key = key ↔ lowerCase key' = key'))) ∧
    ∃ done, done <+: p.events ∧ w.db.ledger = Ledger.of done ∧
      ∀ s ∈ sharesOf done, ∃ c share msg, s.MinedBy X pool actions c share msg := by
  refine ⟨fun identity => ⟨payout_known valid identity, parseMinerAddress_iff.mp rfl⟩, ?_, ?_, ?_⟩
  · intro identity identity' text text' own own'
    rw [parseMinerAddress_iff.mpr own, parseMinerAddress_iff.mpr own']
  · intro Network S identity identity' key key' same
    obtain ⟨script, known⟩ := Option.isSome_iff_exists.mp (payout_known valid identity)
    exact S.eq_iff known (same.symm.trans known)
  · obtain ⟨done, pending, events, keeps⟩ := Worker.run_keeps worked
    have first : done <+: p.events := (events ▸ List.prefix_append ..).trans received
    refine ⟨done, first, keeps.tables, fun s member => ?_⟩
    exact Pool.share_mined started ran (first.subset (mem_sharesOf.mp member))

/-- A parser that knows the address of the test network, in both spellings. -/
def spelledExternals : Externals where
  sha256d := regtestExternals.sha256d
  addressScript address :=
    if address = regtestAddress ∨ address = upperCase regtestAddress then some regtestScript
    else none

def spelledTexts : Spellings spelledExternals Unit where
  textOf _ script := if script = regtestScript then some regtestAddress else none
  accepts := by
    have witness : IsWitnessProgram regtestScript :=
      ⟨0x00, 0x14, _, rfl, .inl rfl, rfl, by decide, by decide⟩
    intro text script
    simp only [spelledExternals, Option.ite_none_right_eq_some, Option.some.injEq]
    constructor
    · rintro ⟨spelled, rfl⟩
      exact ⟨(), _, ⟨rfl, rfl⟩, spelled.imp_right fun upper => ⟨witness, upper⟩⟩
    · rintro ⟨_, _, ⟨rfl, rfl⟩, spelled⟩
      exact ⟨spelled.imp_right And.right, rfl⟩
  lower := by
    intro _ script canonical own _
    obtain ⟨_, eq⟩ := Option.ite_none_right_eq_some.mp own
    cases eq
    decide +kernel

/-- Two connections open a channel for it, one in each spelling, and send a share each. -/
def spelledActions : List Action :=
  let asks (identity : String) : Frame :=
    .openExtendedMiningChannel (some { regtestOpen with userIdentity := identity })
  [.accept, .accept, .frame 0 (asks (regtestAddress ++ ".rig1")) 1700000000 [],
      .frame 1 (asks (upperCase regtestAddress)) 1700000000 []] ++
    List.replicate 4 (.perform 0) ++ List.replicate 4 (.perform 1) ++
    [.frame 0 (.submitSharesExtended (some regtestShare)) 1700000010 [],
      .frame 1 (.submitSharesExtended (some regtestShare)) 1700000010 []] ++
    List.replicate 3 (.perform 0) ++ List.replicate 3 (.perform 1)

/-- Both shares pay to the script, each under its spelling; and two names of workers behind one
spelling make no difference. -/
theorem records_by_payout_text_regtest :
    ∃ inputs w s s', Execution.run Worker.step (Worker.new 0) inputs = some w ∧
      s ∈ w.db.shares ∧ s.minerAddress = regtestAddress ∧
      (∃ share, s.PaysTo spelledExternals share regtestScript) ∧
      s' ∈ w.db.shares ∧ s'.minerAddress = upperCase regtestAddress ∧
      (∃ share, s'.PaysTo spelledExternals share regtestScript) ∧
      parseMinerAddress spelledExternals (regtestAddress ++ ".rig1") regtestAddress =
        parseMinerAddress spelledExternals (regtestAddress ++ ".rig2") regtestAddress := by
  have runs : (Pool.run spelledExternals regtestAddress regtestPool spelledActions).any (fun p =>
      some regtestAddress ∈ p.events.map DbEvent.creditedTo ∧
        some (upperCase regtestAddress) ∈ p.events.map DbEvent.creditedTo) := by
    decide +kernel
  obtain ⟨p, ran, credited, credited'⟩ := Execution.exists_of_any runs
  obtain ⟨s, member, own⟩ := exists_share_of_credited credited
  obtain ⟨s', member', own'⟩ := exists_share_of_credited credited'
  obtain ⟨inputs, w, received, worked, committed⟩ := Worker.can_commit p.events
  have scripts : spelledExternals.addressScript regtestAddress = some regtestScript ∧
      spelledExternals.addressScript (upperCase regtestAddress) = some regtestScript := by
    decide +kernel
  obtain ⟨_, _, spelled, done, _, tables, mined⟩ := records_by_payout_text
    (by rw [scripts.1]; rfl) regtestPool_started ran (received ▸ List.prefix_refl _) worked
  obtain ⟨shares, _⟩ := Ledger.mk.inj tables
  obtain ⟨shares', _⟩ := Ledger.mk.inj committed
  have pays {s : ShareEvent} (member : s ∈ sharesOf p.events)
      (known : spelledExternals.addressScript s.minerAddress = some regtestScript) :
      ∃ share, s.PaysTo spelledExternals share regtestScript := by
    obtain ⟨_, share, _, from_⟩ := mined s (shares ▸ shares' ▸ member)
    obtain ⟨script, own, paysTo⟩ := from_.pays
    rw [known, Option.some.injEq] at own
    exact ⟨share, own ▸ paysTo⟩
  refine ⟨inputs, w, s, s', worked, shares' ▸ member, own, pays member (own ▸ scripts.1),
    shares' ▸ member', own', pays member' (own' ▸ scripts.2), ?_⟩
  refine (spelled Unit spelledTexts _ _ (by decide +kernel)).mpr ⟨⟨(), ?_⟩, by decide +kernel⟩
  exact ⟨⟨regtestScript, regtestAddress, rfl, .inl (by decide +kernel)⟩,
    ⟨regtestScript, regtestAddress, rfl, .inl (by decide +kernel)⟩⟩

/-- Two miners that spell one address in lower and in upper case have two records. -/
theorem spellings_have_two_records :
    ¬∀ X : Externals, X.addressScript (upperCase regtestAddress) = X.addressScript regtestAddress →
      ∀ identity identity' poolAddress, (X.addressScript poolAddress).isSome →
        X.addressScript (parseMinerAddress X identity poolAddress) =
          X.addressScript (parseMinerAddress X identity' poolAddress) →
        parseMinerAddress X identity poolAddress = parseMinerAddress X identity' poolAddress := by
  intro one
  have same := one spelledExternals (by decide +kernel) regtestAddress (upperCase regtestAddress)
    regtestAddress (by decide +kernel) (by decide +kernel)
  exact absurd same (by decide +kernel)

end MiningPool
