import MiningPool.Sv2

/-!
# Templates from the node

`node_ipc.rs` without its event loop: the template built from a block header, a
coinbase and a merkle path, and the solution sent back. The loop is in `Pool`.
-/

namespace MiningPool

open Bitcoin

structure RawTemplate where
  newTemplate : TemplateDistribution.NewTemplate
  setNewPrevHash : TemplateDistribution.SetNewPrevHash
deriving DecidableEq

structure SubmitSolutionData where
  templateId : Nat
  version : UInt32
  headerTimestamp : UInt32
  headerNonce : UInt32
  coinbaseTx : List UInt8
deriving DecidableEq

/-- The block a block client stands for: what the node answers to `get_block_header`,
`get_coinbase_tx` and `get_coinbase_merkle_path`. -/
structure BlockTemplate where
  header : Header
  coinbase : Transaction
  merklePath : List (List UInt8)
deriving DecidableEq

/-- The outputs that the pool's coinbase takes over as they are. -/
def emptyOutputs (cb : Transaction) : List TxOut := cb.output.filter fun o => o.value = 0

def buildRawTemplate (templateId : Nat) (header : Header) (cb : Transaction)
    (path : List (List UInt8)) : Except String RawTemplate := do
  let serializedOutputs := (emptyOutputs cb).flatMap txOut.encode
  let valueRemaining ←
    orError "coinbase output value overflow" (checkedSum (cb.output.map TxOut.value))
  -- `cb.input[0]` panics on a transaction without inputs
  let input ← orError "index out of bounds" cb.input.head?
  let coinbasePrefix ← BoundedBytes.tryFrom "coinbase_prefix" input.scriptSig
  let coinbaseTxOutputs ← BoundedBytes.tryFrom "coinbase_tx_outputs" serializedOutputs
  let pathU256 ← orError "merkle hash" (path.mapM (Bytes.ofList? 32))
  let merklePath ← Seq0255.tryNew "merkle_path" pathU256
  return {
    newTemplate := {
      templateId
      futureTemplate := true
      version := header.version
      coinbaseTxVersion := cb.version
      coinbasePrefix
      coinbaseTxInputSequence := input.sequence
      coinbaseTxValueRemaining := valueRemaining
      coinbaseTxOutputsCount := UInt32.ofNat (emptyOutputs cb).length
      coinbaseTxOutputs
      coinbaseTxLocktime := cb.lockTime
      merklePath }
    setNewPrevHash := {
      templateId
      prevHash := header.prevBlockhash
      headerTimestamp := header.time
      nBits := header.bits
      target := targetOfCompact header.bits } }

private theorem txOut_encode_length (o : TxOut) : 8 ≤ (txOut.encode o).length := by
  have width : (Codec.word64.encode o.value).length = 8 := Bytes.toLE_length 8 _
  change 8 ≤ (Codec.word64.encode o.value ++ Codec.prefixed.encode o.scriptPubkey).length
  rw [List.length_append, width]
  omega

private theorem outputs_length (os : List TxOut) :
    8 * os.length ≤ (os.flatMap txOut.encode).length := by
  induction os with
  | nil => rfl
  | cons o os ih =>
    have := txOut_encode_length o
    simp only [List.flatMap_cons, List.length_append, List.length_cons]
    omega

/-- What a template that was built says, field by field where it depends on the node. -/
theorem buildRawTemplate_ok {templateId : Nat} {header : Header} {cb : Transaction}
    {path : List (List UInt8)} {raw : RawTemplate}
    (h : buildRawTemplate templateId header cb path = .ok raw) :
    ∃ input, cb.input.head? = some input ∧
      raw.newTemplate.templateId = templateId ∧
      raw.newTemplate.version = header.version ∧
      raw.newTemplate.coinbaseTxVersion = cb.version ∧
      raw.newTemplate.coinbasePrefix.val = input.scriptSig ∧
      raw.newTemplate.coinbaseTxInputSequence = input.sequence ∧
      raw.newTemplate.coinbaseTxValueRemaining.toNat =
        (cb.output.map fun o => o.value.toNat).sum ∧
      raw.newTemplate.coinbaseTxOutputsCount.toNat = (emptyOutputs cb).length ∧
      raw.newTemplate.coinbaseTxOutputs.val = (emptyOutputs cb).flatMap txOut.encode ∧
      raw.newTemplate.coinbaseTxLocktime = cb.lockTime ∧
      path.mapM (Bytes.ofList? 32) = some raw.newTemplate.merklePath.val ∧
      raw.setNewPrevHash = ⟨templateId, header.prevBlockhash, header.time, header.bits,
        targetOfCompact header.bits⟩ := by
  simp only [buildRawTemplate, bind_eq_ok, orError_eq_ok, BoundedBytes.tryFrom_eq_ok,
    Seq0255.tryNew_eq_ok] at h
  obtain ⟨sum, hsum, input, hinput, scriptSig, hscript, outs, houts, hashes, hpath, branch,
    hbranch, h⟩ := h
  cases h
  have value := checkedSum_eq_some hsum
  rw [List.map_map] at value
  -- 64 KiB of outputs are too few to overflow the 32-bit count
  have count : (emptyOutputs cb).length < 2 ^ 32 := by
    have short := outs.property
    rw [houts] at short
    have := outputs_length (emptyOutputs cb)
    omega
  exact ⟨input, hinput, rfl, rfl, rfl, hscript, rfl, value, UInt32.toNat_ofNat_of_lt' count, houts,
    rfl, by rw [hpath, hbranch], rfl⟩

/-! ### A test network -/

/-- A block of the test network, with a target that every second header meets. -/
def regtestBlock : BlockTemplate where
  header :=
    { version := 0x20000000
      prevBlockhash := Bytes.zeros 32
      merkleRoot := Bytes.zeros 32
      time := 1700000000
      bits := 0x207fffff
      nonce := 0 }
  coinbase :=
    { version := 2
      lockTime := 0
      input := [⟨OutPoint.null, [0x01, 0x65], 0xffffffff, []⟩]
      output := [⟨5000000000, [0x51]⟩] }
  merklePath := []

/-- The template the pool builds for it. -/
def regtestTemplate : RawTemplate where
  newTemplate :=
    { templateId := 0
      futureTemplate := true
      version := 0x20000000
      coinbaseTxVersion := 2
      coinbasePrefix := ⟨[0x01, 0x65], by decide⟩
      coinbaseTxInputSequence := 0xffffffff
      coinbaseTxValueRemaining := 5000000000
      coinbaseTxOutputsCount := 0
      coinbaseTxOutputs := ⟨[], by decide⟩
      coinbaseTxLocktime := 0
      merklePath := ⟨[], by decide⟩ }
  setNewPrevHash :=
    { templateId := 0
      prevHash := Bytes.zeros 32
      headerTimestamp := 1700000000
      nBits := 0x207fffff
      target := targetOfCompact 0x207fffff }

example : buildRawTemplate 0 regtestBlock.header regtestBlock.coinbase regtestBlock.merklePath =
    .ok regtestTemplate := by rfl

/-- A block whose coinbase also has a zero-value output, as every block with a witness
commitment does. -/
def commitmentBlock : BlockTemplate :=
  { regtestBlock with
    coinbase :=
      { version := 2
        lockTime := 0
        input := [⟨OutPoint.null, [0x01, 0x65], 0xffffffff, [List.replicate 32 0]⟩]
        output := [⟨5000000000, [0x51]⟩, ⟨0, [0x6a]⟩] } }

def commitmentTemplate : RawTemplate :=
  { regtestTemplate with
    newTemplate :=
      { regtestTemplate.newTemplate with
        coinbaseTxOutputsCount := 1
        coinbaseTxOutputs := ⟨[0, 0, 0, 0, 0, 0, 0, 0, 1, 0x6a], by decide⟩ } }

example : buildRawTemplate 0 commitmentBlock.header commitmentBlock.coinbase
    commitmentBlock.merklePath = .ok commitmentTemplate := by rfl

end MiningPool
