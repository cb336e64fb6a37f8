import MiningPool.Bitcoin.Script
import MiningPool.Jobs
import MiningPool.Library.Windows

/-!
# The split at the placeholder

The coinbases that `jobs.rs` builds itself, with a placeholder where the extranonce goes,
and their split by a search for it.

## Main result

`parts_spell_coinbase`: whatever the scripts of the outputs hold, the search stops at the
placeholder of the input script, and the halves spell the same coinbase around any
extranonce.
-/

namespace MiningPool

open Bitcoin Codec Windows

def extranonce1Size : Nat := 4
def extranonce2Size : Nat := 4

/-- `/lottery-pool/` -/
def poolTag : List UInt8 :=
  [0x2f, 0x6c, 0x6f, 0x74, 0x74, 0x65, 0x72, 0x79, 0x2d, 0x70, 0x6f, 0x6f, 0x6c, 0x2f]

def extranoncePlaceholder : Bytes (extranonce1Size + extranonce2Size) :=
  ⟨[0xde, 0xad, 0xbe, 0xef, 0xca, 0xfe, 0xba, 0xbe], rfl⟩

def sv2ExtranoncePlaceholder : Bytes sv2ExtranonceTotal :=
  ⟨List.replicate sv2ExtranonceTotal 0xcc, rfl⟩

/-! ### Construction -/

/-- The height, the pool tag, and the bytes where the extranonce goes. -/
def coinbaseScript (height : UInt32) (extranonce : List UInt8) : Script :=
  pushInt height.toNat ++ pushSlice poolTag ++ pushSlice extranonce

/-- What the two builders share. They differ in the placeholder alone. -/
def coinbaseTxWith (placeholder : List UInt8) (height : UInt32) (coinbaseValue : Int64)
    (minerScript : ScriptBuf) (witnessCommitmentScript : Option ScriptBuf) : Transaction :=
  let minerOutput : TxOut := ⟨coinbaseValue.toUInt64, minerScript.val⟩
  let outputs :=
    match witnessCommitmentScript with
    | some wcScript => [minerOutput, ⟨0, wcScript.val⟩]
    | none => [minerOutput]
  { version := 1
    lockTime := 0
    input := [⟨OutPoint.null, coinbaseScript height placeholder, 0xffffffff, []⟩]
    output := outputs }

def buildCoinbaseTx : UInt32 → Int64 → ScriptBuf → Option ScriptBuf → Transaction :=
  coinbaseTxWith extranoncePlaceholder.data

def buildCoinbaseTxSv2 : UInt32 → Int64 → ScriptBuf → Option ScriptBuf → Transaction :=
  coinbaseTxWith sv2ExtranoncePlaceholder.data

/-- A panic when there is no placeholder. -/
def splitAt (placeholder raw : List UInt8) : Option CoinbaseParts := do
  let pos ← position placeholder raw
  return ⟨raw.take pos, raw.drop (pos + placeholder.length)⟩

def splitAtExtranonce : List UInt8 → Option CoinbaseParts :=
  splitAt extranoncePlaceholder.data

def splitAtSv2Extranonce : List UInt8 → Option CoinbaseParts :=
  splitAt sv2ExtranoncePlaceholder.data

def buildCoinbaseParts (height : UInt32) (coinbaseValue : Int64) (minerScript : ScriptBuf)
    (witnessCommitmentScript : Option ScriptBuf) : Option CoinbaseParts :=
  let tx := buildCoinbaseTx height coinbaseValue minerScript witnessCommitmentScript
  splitAtExtranonce tx.serialize

def buildSv2CoinbaseParts (height : UInt32) (coinbaseValue : Int64) (minerScript : ScriptBuf)
    (witnessCommitmentScript : Option ScriptBuf) : Option CoinbaseParts :=
  let tx := buildCoinbaseTxSv2 height coinbaseValue minerScript witnessCommitmentScript
  splitAtSv2Extranonce tx.serialize

/-! ### The bytes before the extranonce -/

variable {height : UInt32} {coinbaseValue : Int64} {minerScript : ScriptBuf}
  {witnessCommitmentScript : Option ScriptBuf}

/-- The format up to the script of the input, whose length is `scriptLen`. -/
private def fieldsBefore (scriptLen : Nat) : List UInt8 :=
  Bytes.toLE 4 1 ++ [1] ++ List.replicate 32 0 ++ Bytes.toLE 4 0xffffffff ++ [UInt8.ofNat scriptLen]

/-- The script up to an extranonce of `size` bytes, with its opcode. -/
private def scriptBefore (height : UInt32) (size : Nat) : List UInt8 :=
  pushInt height.toNat ++ pushSlice poolTag ++ [UInt8.ofNat size]

private def bytesBefore (height : UInt32) (size : Nat) : List UInt8 :=
  fieldsBefore ((scriptBefore height size).length + size) ++ scriptBefore height size

private def bytesAfter (tx : Transaction) : List UInt8 :=
  word32.encode 0xffffffff ++ outputs.encode tx.output ++ word32.encode tx.lockTime

private theorem scriptBefore_length (height : UInt32) (size : Nat) :
    (scriptBefore height size).length ≤ 22 := by
  have push := pushInt_length height
  have tag : pushSlice poolTag = UInt8.ofNat poolTag.length :: poolTag :=
    pushSlice_short (by decide)
  simp only [scriptBefore, tag, List.length_append]
  simp only [poolTag, List.length_cons, List.length_nil]
  omega

private theorem coinbaseScript_eq {extranonce : List UInt8} (short : extranonce.length < 0x4c) :
    coinbaseScript height extranonce = scriptBefore height extranonce.length ++ extranonce := by
  rw [coinbaseScript, scriptBefore, pushSlice_short short, List.append_assoc _ [_]]
  rfl

private theorem serialize_coinbase {extranonce : List UInt8} (short : extranonce.length < 0x4c) :
    let tx := coinbaseTxWith extranonce height coinbaseValue minerScript witnessCommitmentScript
    tx.serialize = bytesBefore height extranonce.length ++ extranonce ++ bytesAfter tx := by
  intro tx
  have legacy : tx.usesSegwitSerialization = false := rfl
  have input : tx.input.map TxIn.base =
      [(OutPoint.null, coinbaseScript height extranonce, 0xffffffff)] := rfl
  -- the length of the script is one byte
  have small : (scriptBefore height extranonce.length).length + extranonce.length < 0xfd := by
    have := scriptBefore_length height extranonce.length
    omega
  have count : compactSize.encode (coinbaseScript height extranonce).length =
      [UInt8.ofNat ((scriptBefore height extranonce.length).length + extranonce.length)] := by
    rw [coinbaseScript_eq short, List.length_append]
    exact if_pos small
  rw [Transaction.serialize, legacy, if_neg (by decide), Transaction.serializeBase, input,
    encode_null_input, count, coinbaseScript_eq short]
  simp only [bytesBefore, fieldsBefore, bytesAfter, List.append_assoc]
  rfl

/-! ### The search -/

/-- A byte of the fields before the placeholder, or of the pool tag: an ASCII character
or `0xff`. -/
private def Plain (b : UInt8) : Prop := b < 0x80 ∨ b = 0xff

private instance (b : UInt8) : Decidable (Plain b) := inferInstanceAs (Decidable (_ ∨ _))

private theorem plain_ofNat {n : Nat} (small : n < 0x80) : Plain (UInt8.ofNat n) := by
  left
  rw [UInt8.lt_iff_toNat_lt, UInt8.toNat_ofNat']
  exact (Nat.mod_le _ _).trans_lt small

private theorem plain_of_all {bytes : List UInt8} (all : bytes.all fun b => decide (Plain b)) :
    ∀ b ∈ bytes, Plain b := by
  intro b member
  exact of_decide_eq_true (List.all_eq_true.mp all b member)

private theorem fieldsBefore_plain {scriptLen : Nat} (short : scriptLen < 0x80) :
    ∀ b ∈ fieldsBefore scriptLen, Plain b := by
  intro b member
  rw [fieldsBefore, List.mem_append, List.mem_singleton] at member
  obtain fixed | rfl := member
  · exact plain_of_all (by decide) b fixed
  · exact plain_ofNat short

/-- Only the push of the height may have bytes of a placeholder in it, and it is too short
to have them all. -/
private theorem bytesBefore_broken {placeholder : List UInt8} (long : 6 < placeholder.length)
    (short : placeholder.length < 0x4c) (foreign : ∀ b, Plain b → b ∉ placeholder) :
    Broken (· ∉ placeholder) placeholder.length (bytesBefore height placeholder.length) := by
  have script := scriptBefore_length height placeholder.length
  have fields : Broken (· ∉ placeholder) placeholder.length
      (fieldsBefore ((scriptBefore height placeholder.length).length + placeholder.length)) :=
    Broken.of_foreign (by omega) fun b member =>
      foreign b (fieldsBefore_plain (by omega) b member)
  have tag : Broken (· ∉ placeholder) placeholder.length
      (poolTag ++ [UInt8.ofNat placeholder.length]) := by
    apply Broken.of_foreign (by omega)
    intro b member
    apply foreign
    rw [List.mem_append, List.mem_singleton] at member
    obtain letter | rfl := member
    · exact plain_of_all (by decide) b letter
    · exact plain_ofNat (by omega)
  -- the opcode of the tag ends the run of the height
  have opcode : UInt8.ofNat poolTag.length ∉ placeholder := foreign _ (by decide)
  have height_run : (pushInt height.toNat).length < placeholder.length :=
    (pushInt_length height).trans_lt long
  have script : Broken (· ∉ placeholder) placeholder.length
      (scriptBefore height placeholder.length) := by
    rw [scriptBefore, pushSlice_short (by decide), List.append_assoc, List.cons_append]
    exact .run height_run opcode tag
  exact fields.append script

/-- The halves are the bytes around the placeholder of the input script. -/
private theorem splitAt_serialize {placeholder : List UInt8} (long : 6 < placeholder.length)
    (short : placeholder.length < 0x4c) (foreign : ∀ b, Plain b → b ∉ placeholder) :
    let tx := coinbaseTxWith placeholder height coinbaseValue minerScript witnessCommitmentScript
    splitAt placeholder tx.serialize =
      some ⟨bytesBefore height placeholder.length, bytesAfter tx⟩ := by
  intro tx
  have some_ : placeholder ≠ [] := List.ne_nil_of_length_pos (by omega)
  have broken : Broken (· ∉ placeholder) placeholder.length
      (bytesBefore height placeholder.length) := bytesBefore_broken long short foreign
  have found := position_first some_ broken (bytesAfter tx)
  rw [serialize_coinbase short, splitAt, found, List.append_assoc]
  simp only [Option.bind_eq_bind, Option.bind_some, List.take_left, ← List.drop_drop,
    List.drop_left]
  rfl

/-! ### Around an extranonce -/

private theorem coinbase_valid {extranonce : List UInt8} (short : extranonce.length < 0x4c) :
    (coinbaseTxWith extranonce height coinbaseValue minerScript witnessCommitmentScript).Valid := by
  have before := scriptBefore_length height extranonce.length
  have script : (coinbaseScript height extranonce).length < 2 ^ 64 := by
    rw [coinbaseScript_eq short, List.length_append]
    omega
  have payout : minerScript.val.length < 2 ^ 64 := minerScript.property.trans (by decide)
  refine ⟨?_, ?_, ?_⟩
  · simpa [coinbaseTxWith, TxIn.base] using script
  · cases witnessCommitmentScript with
    | none => simpa [coinbaseTxWith] using payout
    | some wcScript =>
      have commitment : wcScript.val.length < 2 ^ 64 := wcScript.property.trans (by decide)
      simpa [coinbaseTxWith] using ⟨payout, commitment⟩
  · simp [coinbaseTxWith]

/-- The transaction with this script in its inputs. -/
def withScriptSig (script : Script) (tx : Transaction) : Transaction :=
  { tx with input := tx.input.map fun i => { i with scriptSig := script } }

/-- No panic, and around any extranonce the halves spell the transaction with the push of
the extranonce where that of the placeholder was. -/
def SplitAround {n : Nat} (height : UInt32) (placeholder : Bytes n) (tx : Transaction)
    (split : Option CoinbaseParts) : Prop :=
  (∃ i, tx.input = [i] ∧ i.scriptSig = coinbaseScript height placeholder.data) ∧
  ∃ parts, split = some parts ∧
    ∀ extranonce : Bytes n, deserialize (parts.assemble extranonce.data) =
      some (withScriptSig (coinbaseScript height extranonce.data) tx)

private theorem splitAround {n : Nat} (placeholder : Bytes n) (long : 6 < n) (short : n < 0x4c)
    (foreign : ∀ b, Plain b → b ∉ placeholder.data) :
    let tx := coinbaseTxWith placeholder.data height coinbaseValue minerScript
      witnessCommitmentScript
    SplitAround height placeholder tx (splitAt placeholder.data tx.serialize) := by
  intro tx
  rw [← placeholder.size] at long short
  refine ⟨⟨_, rfl, rfl⟩, _, splitAt_serialize long short foreign, fun extranonce => ?_⟩
  have same : placeholder.data.length = extranonce.data.length :=
    placeholder.size.trans extranonce.size.symm
  rw [same] at short ⊢
  -- the builder with the extranonce in the placeholder's stead
  have spelled : (coinbaseTxWith extranonce.data height coinbaseValue minerScript
      witnessCommitmentScript).serialize =
      bytesBefore height extranonce.data.length ++ extranonce.data ++ bytesAfter tx :=
    serialize_coinbase short
  rw [CoinbaseParts.assemble, ← spelled]
  exact transaction.decodeAll_encode _ (coinbase_valid short)

/-- No byte of a placeholder occurs in the fixed bytes before it. -/
private theorem foreign_of_all {placeholder : List UInt8}
    (all : placeholder.all fun b => !decide (Plain b)) : ∀ b, Plain b → b ∉ placeholder := by
  intro b plain member
  have strange := List.all_eq_true.mp all b member
  rw [decide_eq_true plain] at strange
  cases strange

/-- Both builders split at the extranonce. -/
theorem parts_spell_coinbase (height : UInt32) (coinbaseValue : Int64) (minerScript : ScriptBuf)
    (witnessCommitmentScript : Option ScriptBuf) :
    SplitAround height extranoncePlaceholder
      (buildCoinbaseTx height coinbaseValue minerScript witnessCommitmentScript)
      (buildCoinbaseParts height coinbaseValue minerScript witnessCommitmentScript) ∧
    SplitAround height sv2ExtranoncePlaceholder
      (buildCoinbaseTxSv2 height coinbaseValue minerScript witnessCommitmentScript)
      (buildSv2CoinbaseParts height coinbaseValue minerScript witnessCommitmentScript) := by
  constructor
  · exact splitAround extranoncePlaceholder (by decide) (by decide) (foreign_of_all (by decide))
  · exact splitAround sv2ExtranoncePlaceholder (by decide) (by decide) (foreign_of_all (by decide))

/-- A payout script that holds the placeholder does not move the cut. -/
example : (buildCoinbaseParts 840000 0 ⟨extranoncePlaceholder.data, by decide⟩ none).map
    (fun parts => parts.coinb1.length) = some 62 := by decide +kernel

end MiningPool
