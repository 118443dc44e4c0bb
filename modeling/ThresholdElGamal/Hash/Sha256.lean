import ThresholdElGamal.Hash.Digest

/-! # SHA-256

The compression function runs over eight registers; a message is closed by one bit, zeros and
its length in bits, so that it fills whole blocks of 64 bytes. Words are numbers below `2 ^ 32`,
and a block is the number of 512 bits that its bytes denote.
-/

namespace ThresholdElGamal.Sha256

def word (n : Nat) : Nat := n % 0x100000000

def rotate (w n : Nat) : Nat := word (w >>> n ||| w <<< (32 - n))

structure Registers where
  (a b c d e f g h : Nat)
deriving DecidableEq

def Registers.add (s t : Registers) : Registers :=
  ⟨word (s.a + t.a), word (s.b + t.b), word (s.c + t.c), word (s.d + t.d), word (s.e + t.e),
    word (s.f + t.f), word (s.g + t.g), word (s.h + t.h)⟩

def Registers.bytes (s : Registers) : Bytes :=
  [s.a, s.b, s.c, s.d, s.e, s.f, s.g, s.h].flatMap fun w => Bytes.ofUInt32 (UInt32.ofNat w)

def initial : Registers :=
  ⟨0x6a09e667, 0xbb67ae85, 0x3c6ef372, 0xa54ff53a, 0x510e527f, 0x9b05688c, 0x1f83d9ab, 0x5be0cd19⟩

def roundConstants : List Nat :=
  [0x428a2f98, 0x71374491, 0xb5c0fbcf, 0xe9b5dba5, 0x3956c25b, 0x59f111f1, 0x923f82a4, 0xab1c5ed5,
   0xd807aa98, 0x12835b01, 0x243185be, 0x550c7dc3, 0x72be5d74, 0x80deb1fe, 0x9bdc06a7, 0xc19bf174,
   0xe49b69c1, 0xefbe4786, 0x0fc19dc6, 0x240ca1cc, 0x2de92c6f, 0x4a7484aa, 0x5cb0a9dc, 0x76f988da,
   0x983e5152, 0xa831c66d, 0xb00327c8, 0xbf597fc7, 0xc6e00bf3, 0xd5a79147, 0x06ca6351, 0x14292967,
   0x27b70a85, 0x2e1b2138, 0x4d2c6dfc, 0x53380d13, 0x650a7354, 0x766a0abb, 0x81c2c92e, 0x92722c85,
   0xa2bfe8a1, 0xa81a664b, 0xc24b8b70, 0xc76c51a3, 0xd192e819, 0xd6990624, 0xf40e3585, 0x106aa070,
   0x19a4c116, 0x1e376c08, 0x2748774c, 0x34b0bcb5, 0x391c0cb3, 0x4ed8aa4a, 0x5b9cca4f, 0x682e6ff3,
   0x748f82ee, 0x78a5636f, 0x84c87814, 0x8cc70208, 0x90befffa, 0xa4506ceb, 0xbef9a3f7, 0xc67178f2]

/-- A word of the sixteen in a number, counted from its low end. -/
def wordAt (block i : Nat) : Nat := word (block >>> (32 * i))

/-- The word of the message schedule behind the sixteen given ones. -/
def nextWord (block : Nat) : Nat :=
  let x := wordAt block 14
  let y := wordAt block 1
  let lower := rotate x 7 ^^^ rotate x 18 ^^^ x >>> 3
  let upper := rotate y 17 ^^^ rotate y 19 ^^^ y >>> 10
  word (upper + wordAt block 6 + lower + wordAt block 15)

/-- The message schedule from the sixteen given words on. -/
def schedule : (rounds block : Nat) → List Nat
  | 0, _ => []
  | rounds + 1, block =>
    wordAt block 15 :: schedule rounds (block % 2 ^ 480 * 0x100000000 + nextWord block)

def round (s : Registers) (step : Nat × Nat) : Registers :=
  let upper := rotate s.e 6 ^^^ rotate s.e 11 ^^^ rotate s.e 25
  let choice := (s.e &&& s.f) ^^^ ((0xffffffff - s.e) &&& s.g)
  let t := s.h + upper + choice + step.1 + step.2
  let lower := rotate s.a 2 ^^^ rotate s.a 13 ^^^ rotate s.a 22
  let majority := (s.a &&& s.b) ^^^ (s.a &&& s.c) ^^^ (s.b &&& s.c)
  ⟨word (t + lower + majority), s.a, s.b, s.c, word (s.d + t), s.e, s.f, s.g⟩

def compress (s : Registers) (block : Nat) : Registers :=
  s.add ((roundConstants.zip (schedule 64 block)).foldl round s)

/-- Runs over the given number of whole blocks. -/
def absorb : Nat → Registers → Bytes → Registers
  | 0, s, _ => s
  | blocks + 1, s, bytes =>
    absorb blocks (compress s (Bytes.toNat (bytes.take 64))) (bytes.drop 64)

def pad (message : Bytes) : Bytes :=
  message ++ 0x80 :: List.replicate ((119 - message.length % 64) % 64) 0 ++
    Bytes.ofUInt64 (UInt64.ofNat (8 * message.length))

def digest (message : Bytes) : Digest where
  bytes :=
    let bytes := pad message
    (absorb (bytes.length / 64) initial bytes).bytes
  length_bytes := rfl

end ThresholdElGamal.Sha256
