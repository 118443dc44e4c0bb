import ThresholdElGamal.Hash.Field

/-! # Nonce streams

A seed and a header determine a stream of exponents: the nonce at an index is the hash of
header and index under the seed.
-/

namespace ThresholdElGamal

structure Nonces where
  seed : Exponent
  header : String
deriving DecidableEq

namespace Nonces

def input (n : Nonces) (index : UInt32) : List Field := [.text n.header, .word index]

def get (n : Nonces) (index : UInt32) : Exponent :=
  (Field.hash n.seed.bytes (n.input index)).toExponent

/-- The nonce for a position of a batch: positions count modulo `2 ^ 32`. -/
def atPosition (n : Nonces) (position : Nat) : Exponent := n.get (UInt32.ofNat position)

/-- The first nonces, as many as the low 32 bits of the count say. -/
def take (n : Nonces) (count : Nat) : List Exponent :=
  (List.range (UInt32.ofNat count).toNat).map n.atPosition

end Nonces

end ThresholdElGamal
