import MiningPool.Library.Codec

/-!
# Transactions

Bitcoin transactions and their consensus format, with and without witness data. The
reader refuses what the format refuses: a count not in its shortest form, a witness
flag other than one, a witness flag with no witness. `decode_serialize` and
`decode_canonical` make it a codec.
-/

namespace Bitcoin

open Codec

abbrev Script := List UInt8

structure OutPoint where
  txid : Bytes 32
  vout : UInt32
deriving DecidableEq

/-- The previous output of a coinbase input. -/
def OutPoint.null : OutPoint := ⟨Bytes.zeros 32, 0xffffffff⟩

structure TxIn where
  previousOutput : OutPoint
  scriptSig : Script
  sequence : UInt32
  witness : List (List UInt8)
deriving DecidableEq

structure TxOut where
  value : UInt64
  scriptPubkey : Script
deriving DecidableEq

/-- The version is the 32-bit pattern of the signed field. -/
structure Transaction where
  version : UInt32
  lockTime : UInt32
  input : List TxIn
  output : List TxOut
deriving DecidableEq

/-- What an input carries apart from its witness. -/
abbrev TxIn.Base := OutPoint × Script × UInt32

def TxIn.base (i : TxIn) : TxIn.Base := (i.previousOutput, i.scriptSig, i.sequence)

def TxIn.ofBase (b : TxIn.Base) (witness : List (List UInt8)) : TxIn := ⟨b.1, b.2.1, b.2.2, witness⟩

def outPoint : Codec OutPoint :=
  (pair (raw 32) word32).imap (fun p => ⟨p.1, p.2⟩) (fun o => (o.txid, o.vout))
    (fun _ _ => rfl) (fun _ => rfl)

def txOut : Codec TxOut :=
  (pair word64 prefixed).imap (fun p => ⟨p.1, p.2⟩) (fun o => (o.value, o.scriptPubkey))
    (fun _ _ => rfl) (fun _ => rfl)

def inputs : Codec (List TxIn.Base) := counted (pair outPoint (pair prefixed word32))

def outputs : Codec (List TxOut) := counted txOut

def witness : Codec (List (List UInt8)) := counted prefixed

@[simp] theorem txOut_valid (o : TxOut) : txOut.Valid o ↔ o.scriptPubkey.length < 2 ^ 64 := by
  simp [txOut, imap, pair, prefixed]

@[simp] theorem inputs_valid (is : List TxIn.Base) :
    inputs.Valid is ↔ is.length < 2 ^ 64 ∧ ∀ i ∈ is, i.2.1.length < 2 ^ 64 := by
  simp [inputs, counted, pair, outPoint, imap, prefixed]

@[simp] theorem outputs_valid (os : List TxOut) :
    outputs.Valid os ↔ os.length < 2 ^ 64 ∧ ∀ o ∈ os, o.scriptPubkey.length < 2 ^ 64 := by
  simp [outputs, counted]

@[simp] theorem witness_valid (w : List (List UInt8)) :
    witness.Valid w ↔ w.length < 2 ^ 64 ∧ ∀ item ∈ w, item.length < 2 ^ 64 := by
  simp [witness, counted, prefixed]

namespace Transaction

/-- The format without witness data, which is what a txid hashes. -/
def serializeBase (tx : Transaction) : List UInt8 :=
  word32.encode tx.version ++ inputs.encode (tx.input.map TxIn.base) ++ outputs.encode tx.output ++
    word32.encode tx.lockTime

def usesSegwitSerialization (tx : Transaction) : Bool :=
  tx.input.any (fun i => !i.witness.isEmpty) || tx.input.isEmpty

/-- `consensus::serialize`: with marker, flag and witnesses when there is a witness. -/
def serialize (tx : Transaction) : List UInt8 :=
  if tx.usesSegwitSerialization then
    word32.encode tx.version ++ [0, 1] ++ inputs.encode (tx.input.map TxIn.base) ++
      outputs.encode tx.output ++ tx.input.flatMap (fun i => witness.encode i.witness) ++
      word32.encode tx.lockTime
  else tx.serializeBase

/-- What follows the marker and flag. -/
def decodeSegwit (version : UInt32) (bs : List UInt8) : Option (Transaction × List UInt8) := do
  let (bases, bs) ← inputs.decode bs
  let (output, bs) ← outputs.decode bs
  let (witnesses, bs) ← witness.decodeMany bases.length bs
  if bases ≠ [] ∧ witnesses.all List.isEmpty then none
  else
    let (lockTime, bs) ← word32.decode bs
    return (⟨version, lockTime, List.zipWith TxIn.ofBase bases witnesses, output⟩, bs)

def decode (bs : List UInt8) : Option (Transaction × List UInt8) := do
  let (version, bs) ← word32.decode bs
  let (bases, bs) ← inputs.decode bs
  -- an empty input list is the segwit marker
  if bases = [] then
    match bs with
    | 1 :: bs => decodeSegwit version bs
    | _ => none
  else
    let (output, bs) ← outputs.decode bs
    let (lockTime, bs) ← word32.decode bs
    return (⟨version, lockTime, bases.map fun b => TxIn.ofBase b [], output⟩, bs)

/-- Counts and lengths that the format can carry. -/
def Valid (tx : Transaction) : Prop :=
  inputs.Valid (tx.input.map TxIn.base) ∧ outputs.Valid tx.output ∧
    ∀ i ∈ tx.input, witness.Valid i.witness

private theorem zipWith_ofBase (is : List TxIn) :
    List.zipWith TxIn.ofBase (is.map TxIn.base) (is.map TxIn.witness) = is := by
  induction is with
  | nil => rfl
  | cons i is ih => simp only [List.map_cons, List.zipWith_cons_cons, ih]; rfl

private theorem ofBase_of_no_witness (is : List TxIn) (none : ∀ i ∈ is, i.witness = []) :
    (is.map TxIn.base).map (fun b => TxIn.ofBase b []) = is := by
  induction is with
  | nil => rfl
  | cons i is ih =>
    have same : TxIn.ofBase i.base [] = i := by
      rw [← none i List.mem_cons_self]
      rfl
    simp only [List.map_cons, ih fun j hj => none j (List.mem_cons_of_mem i hj), same]

private theorem decode_marker (version : UInt32) (bs : List UInt8) :
    decode (word32.encode version ++ 0 :: 1 :: bs) = decodeSegwit version bs := by
  have marker : inputs.decode (0 :: 1 :: bs) = some ([], 1 :: bs) := rfl
  simp [decode, word32.complete version _ (word32_valid version), marker]

private theorem decodeSegwit_complete (tx : Transaction) (valid : tx.Valid)
    (segwit : tx.usesSegwitSerialization) (rest : List UInt8) :
    decodeSegwit tx.version (inputs.encode (tx.input.map TxIn.base) ++ (outputs.encode tx.output ++
      (tx.input.flatMap (fun i => witness.encode i.witness) ++
        (word32.encode tx.lockTime ++ rest)))) = some (tx, rest) := by
  obtain ⟨hin, hout, hwit⟩ := valid
  have wits := witness.decodeMany_complete (tx.input.map TxIn.witness)
    (word32.encode tx.lockTime ++ rest) (by simpa using hwit)
  rw [List.flatMap_map, List.length_map] at wits
  have kept : ¬(tx.input.map TxIn.base ≠ [] ∧
      (tx.input.map TxIn.witness).all List.isEmpty = true) := by
    rintro ⟨some, empty⟩
    simp only [usesSegwitSerialization, Bool.or_eq_true, List.any_eq_true, List.isEmpty_iff,
      Bool.not_eq_true'] at segwit
    rcases segwit with ⟨i, hi, hw⟩ | none
    · have := List.all_eq_true.mp empty i.witness (List.mem_map_of_mem hi)
      rw [this] at hw
      cases hw
    · simp [none] at some
  unfold decodeSegwit
  simp only [inputs.complete _ _ hin, outputs.complete _ _ hout, wits, Option.bind_eq_bind,
    Option.bind_some, List.length_map, if_neg kept,
    word32.complete _ rest (word32_valid tx.lockTime), zipWith_ofBase, pure]

theorem decode_serialize (tx : Transaction) (rest : List UInt8) (valid : tx.Valid) :
    decode (tx.serialize ++ rest) = some (tx, rest) := by
  unfold serialize
  split
  next segwit =>
    have read := decodeSegwit_complete tx valid segwit rest
    rw [← decode_marker] at read
    simpa only [List.append_assoc, List.cons_append, List.nil_append] using read
  next legacy =>
    obtain ⟨hin, hout, _⟩ := valid
    simp only [usesSegwitSerialization, Bool.or_eq_true, List.any_eq_true, List.isEmpty_iff,
      Bool.not_eq_true', not_or, not_exists, not_and] at legacy
    have none : ∀ i ∈ tx.input, i.witness = [] := fun i hi => by
      simpa using legacy.1 i hi
    have nonempty : tx.input.map TxIn.base ≠ [] := by simpa using legacy.2
    simp only [serializeBase, decode, List.append_assoc, inputs.complete _ _ hin,
      outputs.complete _ _ hout, word32.complete _ _ (word32_valid _), Option.bind_eq_bind,
      Option.bind_some, if_neg nonempty, ofBase_of_no_witness _ none, pure]

private theorem zipWith_base (bases : List TxIn.Base) (ws : List (List (List UInt8)))
    (len : ws.length = bases.length) :
    (List.zipWith TxIn.ofBase bases ws).map TxIn.base = bases ∧
      (List.zipWith TxIn.ofBase bases ws).map TxIn.witness = ws := by
  induction bases generalizing ws with
  | nil =>
    obtain rfl : ws = [] := List.eq_nil_of_length_eq_zero len
    exact ⟨rfl, rfl⟩
  | cons b bases ih =>
    cases ws with
    | nil => cases len
    | cons w ws =>
      obtain ⟨hb, hw⟩ := ih ws (by simpa using len)
      simp only [List.zipWith_cons_cons, List.map_cons, hb, hw]
      exact ⟨rfl, rfl⟩

private theorem decodeSegwit_canonical {version : UInt32} {bs rest : List UInt8} {tx : Transaction}
    (h : decodeSegwit version bs = some (tx, rest)) :
    tx.version = version ∧ tx.Valid ∧ tx.usesSegwitSerialization ∧
      bs = inputs.encode (tx.input.map TxIn.base) ++ (outputs.encode tx.output ++
        (tx.input.flatMap (fun i => witness.encode i.witness) ++
          (word32.encode tx.lockTime ++ rest))) := by
  simp only [decodeSegwit, Option.bind_eq_bind, Option.bind_eq_some_iff] at h
  obtain ⟨⟨bases, b₁⟩, hin, ⟨output, b₂⟩, hout, ⟨ws, b₃⟩, hwit, h⟩ := h
  split at h
  · cases h
  next kept =>
    rw [Option.bind_eq_some_iff] at h
    obtain ⟨⟨lockTime, b₄⟩, hlock, h⟩ := h
    cases h
    obtain ⟨vin, rfl⟩ := inputs.canonical _ _ _ hin
    obtain ⟨vout, rfl⟩ := outputs.canonical _ _ _ hout
    obtain ⟨len, vwit, rfl⟩ := witness.decodeMany_canonical _ _ _ _ hwit
    obtain ⟨_, rfl⟩ := word32.canonical _ _ _ hlock
    obtain ⟨hbase, hws⟩ := zipWith_base bases ws len
    have flat : (List.zipWith TxIn.ofBase bases ws).flatMap (fun i => witness.encode i.witness) =
        ws.flatMap witness.encode := by
      conv_rhs => rw [← hws, List.flatMap_map]
    refine ⟨rfl, ⟨by rw [hbase]; exact vin, vout, ?_⟩, ?_, by simp only [hbase, flat]⟩
    · intro i hi
      exact vwit _ (hws ▸ List.mem_map_of_mem hi)
    · simp only [usesSegwitSerialization, Bool.or_eq_true, List.any_eq_true, List.isEmpty_iff,
        Bool.not_eq_true']
      by_cases none : bases = []
      · right
        simp [none]
      · left
        have some : ws.all List.isEmpty ≠ true := fun all => kept ⟨none, all⟩
        simp only [ne_eq, List.all_eq_true, not_forall] at some
        obtain ⟨w, hw, nonempty⟩ := some
        rw [← hws] at hw
        obtain ⟨i, hi, rfl⟩ := List.mem_map.mp hw
        exact ⟨i, hi, by simpa using nonempty⟩

theorem decode_canonical (bs : List UInt8) (tx : Transaction) (rest : List UInt8)
    (h : decode bs = some (tx, rest)) : tx.Valid ∧ bs = tx.serialize ++ rest := by
  simp only [decode, Option.bind_eq_bind, Option.bind_eq_some_iff] at h
  obtain ⟨⟨version, b₁⟩, hver, ⟨bases, b₂⟩, hin, h⟩ := h
  obtain ⟨_, rfl⟩ := word32.canonical _ _ _ hver
  obtain ⟨vin, rfl⟩ := inputs.canonical _ _ _ hin
  simp only at h
  split at h
  next marker =>
    subst marker
    split at h
    next b₃ =>
      obtain ⟨rfl, valid, segwit, rfl⟩ := decodeSegwit_canonical h
      refine ⟨valid, ?_⟩
      rw [serialize, if_pos segwit]
      simp only [List.append_assoc]
      rfl
    · cases h
  next legacy =>
    rw [Option.bind_eq_some_iff] at h
    obtain ⟨⟨output, b₃⟩, hout, h⟩ := h
    rw [Option.bind_eq_some_iff] at h
    obtain ⟨⟨lockTime, b₄⟩, hlock, h⟩ := h
    cases h
    obtain ⟨vout, rfl⟩ := outputs.canonical _ _ _ hout
    obtain ⟨_, rfl⟩ := word32.canonical _ _ _ hlock
    have hbase : (bases.map fun b => TxIn.ofBase b []).map TxIn.base = bases := by
      rw [List.map_map]
      exact List.map_id bases
    have bare : ∀ i ∈ bases.map fun b => TxIn.ofBase b [], witness.Valid i.witness := by
      intro i hi
      obtain ⟨b, _, rfl⟩ := List.mem_map.mp hi
      simp [TxIn.ofBase]
    refine ⟨⟨by rw [hbase]; exact vin, vout, bare⟩, ?_⟩
    have unsegwit : (⟨version, lockTime, bases.map fun b => TxIn.ofBase b [], output⟩ :
        Transaction).usesSegwitSerialization = false := by
      simp [usesSegwitSerialization, TxIn.ofBase, legacy]
    rw [serialize, unsegwit]
    simp only [Bool.false_eq_true, if_false, serializeBase, hbase, List.append_assoc]

/-- What a txid hashes determines all but the witnesses. -/
theorem serializeBase_injective {tx tx' : Transaction} (valid : tx.Valid) (valid' : tx'.Valid)
    (same : tx.serializeBase = tx'.serializeBase) :
    tx.version = tx'.version ∧ tx.input.map TxIn.base = tx'.input.map TxIn.base ∧
      tx.output = tx'.output ∧ tx.lockTime = tx'.lockTime := by
  simp only [serializeBase, List.append_assoc] at same
  obtain ⟨version, same⟩ := word32.encode_injective (word32_valid _) (word32_valid _) same
  obtain ⟨input, same⟩ := inputs.encode_injective valid.1 valid'.1 same
  obtain ⟨output, same⟩ := outputs.encode_injective valid.2.1 valid'.2.1 same
  rw [← List.append_nil (word32.encode tx.lockTime), ← List.append_nil (word32.encode tx'.lockTime)]
    at same
  obtain ⟨lockTime, _⟩ := word32.encode_injective (word32_valid _) (word32_valid _) same
  exact ⟨version, input, output, lockTime⟩

end Transaction

/-- The consensus format of transactions. -/
def transaction : Codec Transaction where
  Valid := Transaction.Valid
  encode := Transaction.serialize
  decode := Transaction.decode
  complete := Transaction.decode_serialize
  canonical := Transaction.decode_canonical

/-- `consensus::deserialize`: every byte must be consumed. -/
def deserialize (bs : List UInt8) : Option Transaction := transaction.decodeAll bs

end Bitcoin
