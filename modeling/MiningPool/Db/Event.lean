import Mathlib.Data.Rat.Defs
import MiningPool.Library.Bytes

/-!
# Database events

What the connections tell the database worker. Difficulties are 64-bit floats in the
source and exact rationals here.
-/

namespace MiningPool

structure ShareEvent where
  minerAddress : String
  difficulty : ℚ
  blockHashBe : Bytes 32
  timestamp : Int
deriving DecidableEq

inductive DbEvent
  | share (s : ShareEvent)
  | minerConnected (address : String) (timestamp : Int)
deriving DecidableEq

/-- The largest finite 64-bit float. -/
def f64Max : ℚ := (2 ^ 53 - 1) * 2 ^ 971

def hashToDifficulty (hashBe : Bytes 32) : ℚ :=
  let hashUpper := Bytes.ofBE (hashBe.data.take 8)
  if hashUpper = 0 then f64Max else (0x00000000ffff0000 : ℚ) / hashUpper

end MiningPool
