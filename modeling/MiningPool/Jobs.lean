import MiningPool.Bitcoin.Header
import MiningPool.Library.Sha256

/-!
# Coinbase construction

The part of `jobs.rs` that the SV2 server uses: the payout script of an address, and
the two halves of a coinbase between which the extranonce goes. `assemble_eq` says
which transaction bytes the halves make around an extranonce.
-/

namespace MiningPool

open Bitcoin Codec

/-- The code outside the repository: the double SHA-256, and the address parser, which
gives the `scriptPubKey` of an address of any network. -/
structure Externals where
  sha256d : List UInt8 → Bytes 32
  addressScript : String → Option Script

def scriptFromAddress (X : Externals) (address : String) : Except String Script :=
  match X.addressScript address with
  | some script => .ok script
  | none => .error ("invalid bitcoin address: " ++ address)

def sv2ExtranoncePrefixSize : Nat := 32
def sv2Extranonce2Size : Nat := 4
def sv2ExtranonceTotal : Nat := sv2ExtranoncePrefixSize + sv2Extranonce2Size

structure CoinbaseParts where
  coinb1 : List UInt8
  coinb2 : List UInt8

def writeVarint (n : Nat) : List UInt8 :=
  if n < 0xfd then [UInt8.ofNat n]
  else if n ≤ 0xffff then 0xfd :: Bytes.toLE 2 n
  else if n ≤ 0xffffffff then 0xfe :: Bytes.toLE 4 n
  else 0xff :: Bytes.toLE 8 n

def buildSv2CoinbaseFromTdp (coinbaseScriptPrefix : List UInt8) (coinbaseTxVersion : UInt32)
    (coinbaseTxInputSequence : UInt32) (coinbaseTxValueRemaining : UInt64)
    (coinbaseTxOutputsCount : UInt32) (coinbaseTxOutputsBytes : List UInt8)
    (coinbaseTxLocktime : UInt32) (minerScript : Script) (useSegwit : Bool) : CoinbaseParts :=
  let scriptTotalLen := coinbaseScriptPrefix.length + sv2ExtranonceTotal
  let prefixBytes :=
    Bytes.toLE 4 coinbaseTxVersion.toNat
      -- marker and flag
      ++ (if useSegwit then [0x00, 0x01] else [])
      ++ [1]
      ++ List.replicate 32 0
      ++ Bytes.toLE 4 0xffffffff
      ++ writeVarint scriptTotalLen
      ++ coinbaseScriptPrefix
  let payout : TxOut := ⟨coinbaseTxValueRemaining, minerScript⟩
  let suffixBytes :=
    Bytes.toLE 4 coinbaseTxInputSequence.toNat
      ++ writeVarint (1 + coinbaseTxOutputsCount.toNat)
      ++ txOut.encode payout
      ++ coinbaseTxOutputsBytes
      -- one witness item of 32 zero bytes
      ++ (if useSegwit then [0x01, 0x20] ++ List.replicate 32 0 else [])
      ++ Bytes.toLE 4 coinbaseTxLocktime.toNat
  ⟨prefixBytes, suffixBytes⟩

/-- The coinbase bytes around an extranonce. -/
def CoinbaseParts.assemble (parts : CoinbaseParts) (extranonce : List UInt8) : List UInt8 :=
  parts.coinb1 ++ extranonce ++ parts.coinb2

theorem writeVarint_eq (n : Nat) : writeVarint n = compactSize.encode n := rfl

/-- The witness nonce of a coinbase. -/
def witnessNonce : List UInt8 := List.replicate 32 0

/-- A coinbase's one input in the consensus format. -/
theorem encode_null_input (script : Script) (sequence : UInt32) :
    inputs.encode [(OutPoint.null, script, sequence)] =
      [1] ++ List.replicate 32 0 ++ Bytes.toLE 4 0xffffffff ++ compactSize.encode script.length ++
        script ++ Bytes.toLE 4 sequence.toNat := by
  simp [inputs, counted, pair, outPoint, imap, raw, word32, Codec.nat, prefixed, OutPoint.null,
    Bytes.zeros, compactSize, encodeCompactSize]

private theorem witness_nonce : witness.encode [witnessNonce] = [0x01, 0x20] ++ witnessNonce := by
  rfl

/-- Around a 36-byte extranonce the halves spell a transaction with one null input. -/
theorem assemble_eq (scriptPrefix outputsBytes extranonce : List UInt8) (version sequence : UInt32)
    (value : UInt64) (count locktime : UInt32) (script : Script) (useSegwit : Bool)
    (len : extranonce.length = sv2ExtranonceTotal) :
    (buildSv2CoinbaseFromTdp scriptPrefix version sequence value count outputsBytes locktime script
      useSegwit).assemble extranonce =
    word32.encode version ++ (if useSegwit then [0, 1] else []) ++
      inputs.encode [(OutPoint.null, scriptPrefix ++ extranonce, sequence)] ++
      (compactSize.encode (1 + count.toNat) ++ txOut.encode ⟨value, script⟩ ++ outputsBytes) ++
      (if useSegwit then witness.encode [witnessNonce] else []) ++ word32.encode locktime := by
  have total : scriptPrefix.length + sv2ExtranonceTotal = (scriptPrefix ++ extranonce).length := by
    rw [List.length_append, len]
  rw [encode_null_input, witness_nonce]
  simp only [buildSv2CoinbaseFromTdp, CoinbaseParts.assemble, writeVarint_eq, total,
    List.append_assoc]
  rfl

/-! ### A test network -/

/-- The address that the tests of the source pay to, and its script. -/
def regtestAddress : String := "bc1qar0srrr7xfkvy5l643lydnw9re59gtzzwf5mdq"

def regtestScript : Script :=
  [0x00, 0x14, 0xe8, 0xdf, 0x01, 0x8c, 0x7e, 0x32, 0x6c, 0xc2, 0x53, 0xfa, 0xac, 0x7e, 0x46, 0xcd,
    0xc5, 0x1e, 0x68, 0x54, 0x2c, 0x42]

/-- The double SHA-256 itself, and an address parser that knows one address. -/
def regtestExternals : Externals where
  sha256d := Sha256.sha256d
  addressScript address := if address = regtestAddress then some regtestScript else none

end MiningPool
