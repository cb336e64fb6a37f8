import MiningPool.Stratum.Runs

/-!
# The coinbase of a job

Which transaction the miner's bytes spell, and when these bytes are the ones a txid
hashes.
-/

namespace MiningPool

open Bitcoin Codec

variable {X : Externals} {channel : ChannelInfo} {jobId : UInt32} {raw : RawTemplate}
  {snph : SetNewPrevHash} {job : NewExtendedMiningJob} {info : JobInfo}

/-! ### From the node's coinbase to the miner's -/

/-- The payout, then the outputs that are taken over. -/
private theorem encode_outputs (payout : TxOut) (rest : List TxOut) :
    outputs.encode (payout :: rest) =
      compactSize.encode (1 + rest.length) ++ txOut.encode payout ++ rest.flatMap txOut.encode := by
  rw [Nat.add_comm, List.append_assoc]
  rfl

private theorem script_length_le (o : TxOut) :
    o.scriptPubkey.length ≤ (txOut.encode o).length := by
  change _ ≤ (word64.encode o.value ++ (compactSize.encode o.scriptPubkey.length ++
    o.scriptPubkey)).length
  simp only [List.length_append]
  omega

private theorem script_length_le_flatMap {os : List TxOut} {o : TxOut} (member : o ∈ os) :
    o.scriptPubkey.length ≤ (os.flatMap txOut.encode).length := by
  obtain ⟨before, after, rfl⟩ := List.append_of_mem member
  have := script_length_le o
  simp only [List.flatMap_append, List.flatMap_cons, List.length_append]
  omega

/-- The transaction a miner assembles from a job of the template. -/
def minerCoinbase (version sequence lockTime : UInt32) (scriptSig : Script) (payout : TxOut)
    (rest : List TxOut) (witness : List (List UInt8)) : Transaction where
  version := version
  lockTime := lockTime
  input := [⟨OutPoint.null, scriptSig, sequence, witness⟩]
  output := payout :: rest

private theorem coinb2_script_le (script : Script) :
    script.length ≤ (jobParts raw script).coinb2.length := by
  have := script_length_le ⟨raw.newTemplate.coinbaseTxValueRemaining, script⟩
  simp only [jobParts, buildSv2CoinbaseFromTdp, List.length_append] at this ⊢
  omega

/-- A script that was announced in a job is short. -/
theorem payout_script_short {script : Script}
    (built : buildJobMessages X channel jobId raw = .ok (snph, job, info))
    (known : X.addressScript channel.minerAddress = some script) : script.length ≤ 65535 := by
  obtain ⟨_, known', _, coinb2, _, announced, _⟩ := buildJobMessages_ok built
  rw [known, Option.some.injEq] at known'
  have sent := job.coinbaseTxSuffix.property
  rw [announced.coinb2, coinb2, ← known'] at sent
  exact (coinb2_script_le script).trans sent

private theorem jobParts_assemble (raw : RawTemplate) (script : Script) (rest : List TxOut)
    (count : raw.newTemplate.coinbaseTxOutputsCount.toNat = rest.length)
    (outs : raw.newTemplate.coinbaseTxOutputs.val = rest.flatMap txOut.encode)
    (extranonce : List UInt8) (len : extranonce.length = sv2ExtranonceTotal) :
    (jobParts raw script).assemble extranonce =
      (minerCoinbase raw.newTemplate.coinbaseTxVersion raw.newTemplate.coinbaseTxInputSequence
        raw.newTemplate.coinbaseTxLocktime (raw.newTemplate.coinbasePrefix.val ++ extranonce)
        ⟨raw.newTemplate.coinbaseTxValueRemaining, script⟩ rest
        (if rest = [] then [] else [witnessNonce])).serialize := by
  have segwit : decide (raw.newTemplate.coinbaseTxOutputsCount > 0) = true ↔ rest ≠ [] := by
    rw [decide_eq_true_eq, gt_iff_lt, UInt32.lt_iff_toNat_lt, count]
    exact List.length_pos_iff
  rw [jobParts, assemble_eq _ _ _ _ _ _ _ _ _ _ len, outs, count, ← encode_outputs]
  by_cases none : rest = []
  · have legacy : decide (raw.newTemplate.coinbaseTxOutputsCount > 0) = false :=
      Bool.eq_false_iff.mpr fun h => segwit.mp h none
    simp [none, legacy, Transaction.serialize, Transaction.usesSegwitSerialization, minerCoinbase,
      Transaction.serializeBase, TxIn.base]
  · simp [none, segwit.mpr none, Transaction.serialize, Transaction.usesSegwitSerialization,
      minerCoinbase, TxIn.base]

private theorem minerCoinbase_valid {version sequence lockTime : UInt32} {scriptSig : Script}
    {payout : TxOut} {rest : List TxOut} (shortSig : scriptSig.length < 2 ^ 64)
    (shortPayout : payout.scriptPubkey.length < 2 ^ 64) (few : rest.length + 1 < 2 ^ 64)
    (shortRest : ∀ o ∈ rest, o.scriptPubkey.length < 2 ^ 64) :
    (minerCoinbase version sequence lockTime scriptSig payout rest
      (if rest = [] then [] else [witnessNonce])).Valid := by
  refine ⟨by simpa [minerCoinbase, TxIn.base] using shortSig, ?_, ?_⟩
  · rw [outputs_valid]
    exact ⟨few, List.forall_mem_cons.mpr ⟨shortPayout, shortRest⟩⟩
  · intro i member
    obtain rfl := List.mem_singleton.mp member
    split <;> simp [witnessNonce]

/-- The miner's bytes deserialize to the coinbase they were meant to spell, for every
template that carries the serialized outputs `rest`. -/
theorem deserialize_parts {script : Script} (short : (jobParts raw script).coinb2.length ≤ 65535)
    {rest : List TxOut} (count : raw.newTemplate.coinbaseTxOutputsCount.toNat = rest.length)
    (outs : raw.newTemplate.coinbaseTxOutputs.val = rest.flatMap txOut.encode)
    (extranonce : Bytes sv2ExtranonceTotal) :
    deserialize ((jobParts raw script).coinb1 ++ extranonce.data ++ (jobParts raw script).coinb2) =
      some (minerCoinbase raw.newTemplate.coinbaseTxVersion
        raw.newTemplate.coinbaseTxInputSequence raw.newTemplate.coinbaseTxLocktime
        (raw.newTemplate.coinbasePrefix.val ++ extranonce.data)
        ⟨raw.newTemplate.coinbaseTxValueRemaining, script⟩ rest
        (if rest = [] then [] else [witnessNonce])) := by
  rw [← CoinbaseParts.assemble,
    jobParts_assemble raw script rest count outs extranonce.data extranonce.size]
  apply transaction.decodeAll_encode
  apply minerCoinbase_valid
  · have := raw.newTemplate.coinbasePrefix.property
    have := extranonce.size
    simp only [List.length_append, sv2ExtranonceTotal, sv2ExtranoncePrefixSize,
      sv2Extranonce2Size] at *
    omega
  · exact ((coinb2_script_le script).trans short).trans_lt (by decide)
  · have := raw.newTemplate.coinbaseTxOutputsCount.toNat_lt
    omega
  · intro o member
    have short := raw.newTemplate.coinbaseTxOutputs.property
    rw [outs] at short
    have := script_length_le_flatMap member
    omega

theorem deserialize_job
    (built : buildJobMessages X channel jobId raw = .ok (snph, job, info)) {rest : List TxOut}
    (count : raw.newTemplate.coinbaseTxOutputsCount.toNat = rest.length)
    (outs : raw.newTemplate.coinbaseTxOutputs.val = rest.flatMap txOut.encode)
    (extranonce : Bytes sv2ExtranonceTotal) :
    ∃ script, X.addressScript channel.minerAddress = some script ∧
      deserialize (info.coinb1 ++ extranonce.data ++ info.coinb2) =
        some (minerCoinbase raw.newTemplate.coinbaseTxVersion
          raw.newTemplate.coinbaseTxInputSequence raw.newTemplate.coinbaseTxLocktime
          (raw.newTemplate.coinbasePrefix.val ++ extranonce.data)
          ⟨raw.newTemplate.coinbaseTxValueRemaining, script⟩ rest
          (if rest = [] then [] else [witnessNonce])) := by
  obtain ⟨script, known, coinb1, coinb2, _, announced, _⟩ := buildJobMessages_ok built
  have short := job.coinbaseTxSuffix.property
  rw [announced.coinb2, coinb2] at short
  exact ⟨script, known, by rw [coinb1, coinb2, deserialize_parts short count outs extranonce]⟩

private theorem sum_emptyOutputs (cb : Transaction) :
    ((emptyOutputs cb).map fun o => o.value.toNat).sum = 0 := by
  apply List.sum_eq_zero
  intro v member
  obtain ⟨o, kept, rfl⟩ := List.mem_map.mp member
  have zero : o.value = 0 := by simpa [emptyOutputs] using (List.mem_filter.mp kept).2
  rw [zero]
  rfl

/-- From the node's coinbase to the miner's: same version, lock time and input sequence,
the script followed by the extranonce, the whole value to the miner, the zero-value
outputs, and the witness item when there are any. -/
theorem miner_coinbase_preserves {templateId : Nat} {header : Header} {cb : Transaction}
    {path : List (List UInt8)}
    (template : buildRawTemplate templateId header cb path = .ok raw)
    (built : buildJobMessages X channel jobId raw = .ok (snph, job, info))
    (extranoncePrefix : Bytes 32) (ext2 : Bytes 4) :
    ∃ input script tx,
      cb.input.head? = some input ∧ X.addressScript channel.minerAddress = some script ∧
      deserialize (info.coinb1 ++ (buildFullExtranonce extranoncePrefix ext2.data).data ++
        info.coinb2) = some tx ∧
      job.coinbaseTxPrefix.val = info.coinb1 ∧ job.coinbaseTxSuffix.val = info.coinb2 ∧
      tx.version = cb.version ∧ tx.lockTime = cb.lockTime ∧
      tx.input =
        [{ previousOutput := OutPoint.null
           scriptSig := input.scriptSig ++ extranoncePrefix.data ++ ext2.data
           sequence := input.sequence
           witness := if (cb.output.filter fun o => o.value = 0) = [] then []
             else [List.replicate 32 0] }] ∧
      (∃ payout : TxOut, payout.scriptPubkey = script ∧
        payout.value.toNat = (cb.output.map fun o => o.value.toNat).sum ∧
        tx.output = payout :: cb.output.filter fun o => o.value = 0) ∧
      (tx.output.map fun o => o.value.toNat).sum = (cb.output.map fun o => o.value.toNat).sum := by
  obtain ⟨input, first, _, _, version, scriptSig, sequence, value, count, outs, lockTime, _, _⟩ :=
    buildRawTemplate_ok template
  obtain ⟨script, known, parsed⟩ := deserialize_job built count outs
    (buildFullExtranonce extranoncePrefix ext2.data)
  obtain ⟨_, _, _, _, _, announced, _⟩ := buildJobMessages_ok built
  rw [version, sequence, lockTime, scriptSig, buildFullExtranonce_four] at parsed
  rw [buildFullExtranonce_four]
  refine ⟨input, script, _, first, known, parsed, announced.coinb1, announced.coinb2, rfl, rfl, ?_,
    ⟨⟨raw.newTemplate.coinbaseTxValueRemaining, script⟩, rfl, value, rfl⟩, ?_⟩
  · rw [← List.append_assoc]
    rfl
  · rw [minerCoinbase, List.map_cons, List.sum_cons, sum_emptyOutputs, Nat.add_zero]
    exact value

/-- The coinbase of a block with a commitment, for the first channel of the test network. -/
theorem miner_coinbase_preserves_regtest :
    ∃ tx, deserialize (commitmentMessages.2.2.coinb1 ++
        (buildFullExtranonce (Bytes.zeros 32) (Bytes.zeros 4).data).data ++
        commitmentMessages.2.2.coinb2) = some tx ∧
      ∃ payout : TxOut, payout.value.toNat = 5000000000 ∧ tx.output = [payout, ⟨0, [0x6a]⟩] := by
  have template : buildRawTemplate 0 commitmentBlock.header commitmentBlock.coinbase
      commitmentBlock.merklePath = .ok commitmentTemplate := rfl
  obtain ⟨_, _, tx, _, _, parsed, _, _, _, _, _, ⟨payout, _, value, outs⟩, _⟩ :=
    miner_coinbase_preserves template commitmentMessages_built (Bytes.zeros 32) (Bytes.zeros 4)
  exact ⟨tx, parsed, payout, value, outs⟩

/-! ### The bytes a txid hashes -/

/-- The pool reads the miner's bytes as a transaction whose txid hashes these very bytes. -/
def SameLeaf (bytes : List UInt8) : Prop :=
  ∃ tx, deserialize bytes = some tx ∧ tx.serializeBase = bytes

private theorem encodeCompactSize_head {n : Nat} (positive : 0 < n) :
    ∃ b rest, encodeCompactSize n = b :: rest ∧ b ≠ 0 := by
  unfold encodeCompactSize
  split
  next small =>
    refine ⟨UInt8.ofNat n, [], rfl, fun zero => ?_⟩
    have value := congrArg UInt8.toNat zero
    rw [UInt8.toNat_ofNat'] at value
    simp at value
    omega
  split
  · exact ⟨0xfd, _, rfl, by decide⟩
  split
  · exact ⟨0xfe, _, rfl, by decide⟩
  · exact ⟨0xff, _, rfl, by decide⟩

/-- With marker and flag in them, bytes are never what a txid hashes. -/
private theorem not_sameLeaf_of_marker (version rest : List UInt8) (four : version.length = 4) :
    ¬SameLeaf (version ++ 0 :: 1 :: rest) := by
  rintro ⟨tx, parsed, same⟩
  obtain ⟨_, spelled⟩ := transaction.decodeAll_canonical parsed
  change _ = tx.serialize at spelled
  unfold Transaction.serialize at spelled
  split at spelled
  next segwit =>
    -- the witness format is longer than the other
    have longer := congrArg List.length (same.trans spelled)
    simp only [Transaction.serializeBase, List.length_append, List.length_cons,
      List.length_nil] at longer
    omega
  next legacy =>
    -- the other format has the count of inputs where the marker is
    have some_ : 0 < tx.input.length := by
      simp only [Transaction.usesSegwitSerialization, Bool.or_eq_true, not_or,
        List.isEmpty_iff] at legacy
      exact List.length_pos_iff.mpr legacy.2
    obtain ⟨b, tail, head, nonzero⟩ := encodeCompactSize_head some_
    have bytes : tx.serializeBase = word32.encode tx.version ++ b :: (tail ++
        ((tx.input.map TxIn.base).flatMap (pair outPoint (pair prefixed word32)).encode ++
          (outputs.encode tx.output ++ word32.encode tx.lockTime))) := by
      have count : inputs.encode (tx.input.map TxIn.base) = (b :: tail) ++
          (tx.input.map TxIn.base).flatMap (pair outPoint (pair prefixed word32)).encode := by
        rw [← head, ← List.length_map TxIn.base]
        rfl
      rw [Transaction.serializeBase, count]
      simp only [List.append_assoc, List.cons_append]
    rw [bytes] at spelled
    have width : (word32.encode tx.version).length = 4 := Bytes.toLE_length 4 _
    have tails := List.append_inj_right spelled (four.trans width.symm)
    exact nonzero (List.cons.inj tails).1.symm

/-- Without template outputs, the miner and the pool hash the same leaf. -/
private theorem sameLeaf_of_no_outputs
    (built : buildJobMessages X channel jobId raw = .ok (snph, job, info))
    (count : raw.newTemplate.coinbaseTxOutputsCount = 0)
    (outs : raw.newTemplate.coinbaseTxOutputs.val = []) (extranonce : Bytes sv2ExtranonceTotal) :
    SameLeaf (info.coinb1 ++ extranonce.data ++ info.coinb2) := by
  have none : raw.newTemplate.coinbaseTxOutputsCount.toNat = ([] : List TxOut).length := by
    rw [count]
    rfl
  obtain ⟨script, _, parsed⟩ := deserialize_job built none outs extranonce
  obtain ⟨_, spelled⟩ := transaction.decodeAll_canonical parsed
  refine ⟨_, parsed, ?_⟩
  rw [spelled]
  rfl

/-- With a count of zero but bytes of outputs, the bytes are no transaction's. -/
private theorem no_outputs_of_sameLeaf
    (built : buildJobMessages X channel jobId raw = .ok (snph, job, info))
    (count : raw.newTemplate.coinbaseTxOutputsCount = 0) (extranonce : Bytes sv2ExtranonceTotal)
    (same : SameLeaf (info.coinb1 ++ extranonce.data ++ info.coinb2)) :
    raw.newTemplate.coinbaseTxOutputs.val = [] := by
  obtain ⟨tx, parsed, spelled⟩ := same
  obtain ⟨⟨validIn, validOut, _⟩, _⟩ := transaction.decodeAll_canonical parsed
  obtain ⟨script, known, coinb1, coinb2, _⟩ := buildJobMessages_ok built
  have shortScript := payout_script_short built known
  have shortPrefix := raw.newTemplate.coinbasePrefix.property
  have bytes : info.coinb1 ++ extranonce.data ++ info.coinb2 =
      (jobParts raw script).assemble extranonce.data := by
    rw [coinb1, coinb2, CoinbaseParts.assemble]
  have legacy : decide (raw.newTemplate.coinbaseTxOutputsCount > 0) = false := by rw [count]; rfl
  have one : compactSize.encode (1 + raw.newTemplate.coinbaseTxOutputsCount.toNat) ++
      txOut.encode ⟨raw.newTemplate.coinbaseTxValueRemaining, script⟩ =
      outputs.encode [⟨raw.newTemplate.coinbaseTxValueRemaining, script⟩] := by
    rw [encode_outputs, count, List.flatMap_nil, List.append_nil]
    rfl
  rw [bytes, jobParts, assemble_eq _ _ _ _ _ _ _ _ _ _ extranonce.size, legacy, one,
    Transaction.serializeBase] at spelled
  simp only [List.append_assoc, Bool.false_eq_true, if_false, List.nil_append] at spelled
  obtain ⟨_, spelled⟩ := word32.encode_injective (word32_valid _) (word32_valid _) spelled
  obtain ⟨_, spelled⟩ := inputs.encode_injective validIn (by
    rw [inputs_valid]
    have := extranonce.size
    simp only [List.length_singleton, List.mem_singleton, forall_eq, List.length_append,
      sv2ExtranonceTotal, sv2ExtranoncePrefixSize, sv2Extranonce2Size] at this ⊢
    omega) spelled
  obtain ⟨_, spelled⟩ := outputs.encode_injective validOut (by
    rw [outputs_valid]
    simp only [List.length_singleton, List.mem_singleton, forall_eq]
    omega) spelled
  -- what is left is a lock time on both sides
  have lengths := congrArg List.length spelled
  have width (w : UInt32) : (word32.encode w).length = 4 := Bytes.toLE_length 4 _
  rw [List.length_append, width, width] at lengths
  exact List.eq_nil_of_length_eq_zero (by omega)

private theorem marker_of_count
    (built : buildJobMessages X channel jobId raw = .ok (snph, job, info))
    (count : raw.newTemplate.coinbaseTxOutputsCount ≠ 0) :
    ∃ rest, info.coinb1 =
      Bytes.toLE 4 raw.newTemplate.coinbaseTxVersion.toNat ++ 0 :: 1 :: rest := by
  obtain ⟨script, _, coinb1, _⟩ := buildJobMessages_ok built
  have segwit : decide (raw.newTemplate.coinbaseTxOutputsCount > 0) = true :=
    decide_eq_true (UInt32.pos_iff_ne_zero.mpr count)
  simp only [coinb1, jobParts, buildSv2CoinbaseFromTdp, segwit, if_true, List.append_assoc,
    List.cons_append, List.nil_append]
  exact ⟨_, rfl⟩

/-- The bytes a miner hashes are the ones the pool hashes exactly when the template adds no
outputs to the coinbase. -/
theorem sameLeaf_iff (built : buildJobMessages X channel jobId raw = .ok (snph, job, info))
    (extranonce : Bytes sv2ExtranonceTotal) :
    (∃ tx, deserialize (job.coinbaseTxPrefix.val ++ extranonce.data ++ job.coinbaseTxSuffix.val) =
        some tx ∧
      tx.serializeBase = job.coinbaseTxPrefix.val ++ extranonce.data ++ job.coinbaseTxSuffix.val) ↔
    raw.newTemplate.coinbaseTxOutputsCount = 0 ∧ raw.newTemplate.coinbaseTxOutputs.val = [] := by
  obtain ⟨_, _, _, _, _, announced, _⟩ := buildJobMessages_ok built
  rw [announced.coinb1, announced.coinb2]
  constructor
  · intro same
    have count : raw.newTemplate.coinbaseTxOutputsCount = 0 := by
      by_contra some_
      obtain ⟨rest, marker⟩ := marker_of_count built some_
      simp only [marker, List.append_assoc, List.cons_append] at same
      exact not_sameLeaf_of_marker _ _ (Bytes.toLE_length 4 _) same
    exact ⟨count, no_outputs_of_sameLeaf built count extranonce same⟩
  · rintro ⟨count, outs⟩
    exact sameLeaf_of_no_outputs built count outs extranonce

/-- Without template outputs the leaves agree. -/
theorem sameLeaf_regtest :
    ∃ tx, deserialize (legacyMessages.2.1.coinbaseTxPrefix.val ++ (Bytes.zeros 36).data ++
        legacyMessages.2.1.coinbaseTxSuffix.val) = some tx ∧
      tx.serializeBase = legacyMessages.2.1.coinbaseTxPrefix.val ++ (Bytes.zeros 36).data ++
        legacyMessages.2.1.coinbaseTxSuffix.val :=
  (sameLeaf_iff legacyMessages_built (Bytes.zeros 36)).mpr ⟨rfl, rfl⟩

/-- With one they do not: the miner's double SHA-256 is not the pool's txid. -/
theorem leaves_differ :
    let bytes := commitmentMessages.2.1.coinbaseTxPrefix.val ++ (Bytes.zeros 36).data ++
      commitmentMessages.2.1.coinbaseTxSuffix.val
    let tx : Transaction :=
      { version := 2
        lockTime := 0
        input := [⟨OutPoint.null, [0x01, 0x65] ++ List.replicate 36 0, 0xffffffff,
          [List.replicate 32 0]⟩]
        output := [⟨5000000000, regtestScript⟩, ⟨0, [0x6a]⟩] }
    buildJobMessages regtestExternals regtestChannel 1 commitmentTemplate =
        .ok commitmentMessages ∧
      deserialize bytes = some tx ∧ tx.serializeBase ≠ bytes ∧
      computeTxid regtestExternals.sha256d tx ≠ regtestExternals.sha256d bytes := by
  decide +kernel

end MiningPool
