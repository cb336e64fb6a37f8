import MiningPool.Library.Bytes

/-!
# SHA-256

The hash over byte strings, written so that the kernel can evaluate it. Results that
hold for any hash take one as a parameter; this one is for runs on concrete bytes.
-/

namespace Sha256

/-- Words are naturals below this. -/
def width : Nat := 0x100000000

def roundConstants : List Nat := [
  0x428a2f98, 0x71374491, 0xb5c0fbcf, 0xe9b5dba5, 0x3956c25b, 0x59f111f1, 0x923f82a4, 0xab1c5ed5,
  0xd807aa98, 0x12835b01, 0x243185be, 0x550c7dc3, 0x72be5d74, 0x80deb1fe, 0x9bdc06a7, 0xc19bf174,
  0xe49b69c1, 0xefbe4786, 0x0fc19dc6, 0x240ca1cc, 0x2de92c6f, 0x4a7484aa, 0x5cb0a9dc, 0x76f988da,
  0x983e5152, 0xa831c66d, 0xb00327c8, 0xbf597fc7, 0xc6e00bf3, 0xd5a79147, 0x06ca6351, 0x14292967,
  0x27b70a85, 0x2e1b2138, 0x4d2c6dfc, 0x53380d13, 0x650a7354, 0x766a0abb, 0x81c2c92e, 0x92722c85,
  0xa2bfe8a1, 0xa81a664b, 0xc24b8b70, 0xc76c51a3, 0xd192e819, 0xd6990624, 0xf40e3585, 0x106aa070,
  0x19a4c116, 0x1e376c08, 0x2748774c, 0x34b0bcb5, 0x391c0cb3, 0x4ed8aa4a, 0x5b9cca4f, 0x682e6ff3,
  0x748f82ee, 0x78a5636f, 0x84c87814, 0x8cc70208, 0x90befffa, 0xa4506ceb, 0xbef9a3f7, 0xc67178f2]

/-- The eight chaining words. -/
structure Chain where
  (a b c d e f g h : Nat)

def initial : Chain :=
  ⟨0x6a09e667, 0xbb67ae85, 0x3c6ef372, 0xa54ff53a, 0x510e527f, 0x9b05688c, 0x1f83d9ab, 0x5be0cd19⟩

def rotateRight (x n : Nat) : Nat := (x >>> n) ||| ((x <<< (32 - n)) % width)

def round (s : Chain) (k w : Nat) : Chain :=
  let s1 := rotateRight s.e 6 ^^^ rotateRight s.e 11 ^^^ rotateRight s.e 25
  let choice := (s.e &&& s.f) ^^^ ((0xffffffff ^^^ s.e) &&& s.g)
  let t1 := s.h + s1 + choice + k + w
  let s0 := rotateRight s.a 2 ^^^ rotateRight s.a 13 ^^^ rotateRight s.a 22
  let majority := (s.a &&& s.b) ^^^ (s.a &&& s.c) ^^^ (s.b &&& s.c)
  ⟨(t1 + s0 + majority) % width, s.a, s.b, s.c, (s.d + t1) % width, s.e, s.f, s.g⟩

/-- One round a constant. The word list is the schedule's window: its head is the
current word, and the word sixteen places on is computed as the window moves. -/
def rounds : List Nat → List Nat → Chain → Chain
  | k :: ks, w :: ws, s =>
    let w1 := ws.getD 0 0
    let w9 := ws.getD 8 0
    let w14 := ws.getD 13 0
    let s0 := rotateRight w1 7 ^^^ rotateRight w1 18 ^^^ (w1 >>> 3)
    let s1 := rotateRight w14 17 ^^^ rotateRight w14 19 ^^^ (w14 >>> 10)
    rounds ks (ws ++ [(w + s0 + w9 + s1) % width]) (round s k w)
  | _, _, s => s

def compress (s : Chain) (block : List Nat) : Chain :=
  let r := rounds roundConstants block s
  ⟨(s.a + r.a) % width, (s.b + r.b) % width, (s.c + r.c) % width, (s.d + r.d) % width,
    (s.e + r.e) % width, (s.f + r.f) % width, (s.g + r.g) % width, (s.h + r.h) % width⟩

def compressAll : Nat → List Nat → Chain → Chain
  | 0, _, s => s
  | n + 1, ws, s => compressAll n (ws.drop 16) (compress s (ws.take 16))

/-- The bytes as big-endian 32-bit words. -/
def words : List UInt8 → List Nat
  | a :: b :: c :: d :: rest => Bytes.ofBE [a, b, c, d] :: words rest
  | _ => []

def pad (m : List UInt8) : List UInt8 :=
  m ++ 0x80 :: List.replicate ((119 - m.length % 64) % 64) 0 ++ Bytes.toBE 8 (8 * m.length)

def sha256 (m : List UInt8) : Bytes 32 :=
  let ws := words (pad m)
  let s := compressAll (ws.length / 16) ws initial
  ⟨[s.a, s.b, s.c, s.d, s.e, s.f, s.g, s.h].flatMap fun w => Bytes.toBE 4 w, by
    simp [List.flatMap_cons]⟩

def sha256d (m : List UInt8) : Bytes 32 := sha256 (sha256 m).data

-- the hash of "abc"
example : Bytes.ofBE (sha256 [0x61, 0x62, 0x63]).data =
    0xba7816bf8f01cfea414140de5dae2223b00361a396177a9cb410ff61f20015ad := by decide +kernel

end Sha256
