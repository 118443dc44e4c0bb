import ThresholdElGamal.Group.Exponent

/-! # Random exponents from random bytes

A candidate is read from as many bytes as `q` has, least significant first, with the highest of
its 32-bit words halved, so that it has no more bits than `q`. Candidates that are not below
`q` are thrown away.
-/

namespace ThresholdElGamal

class ByteSource (σ : Type) where
  next : σ → UInt8 × σ

namespace ByteSource

variable {σ : Type} [ByteSource σ]

def take : Nat → σ → Bytes × σ
  | 0, s => ([], s)
  | n + 1, s =>
    let (b, s) := next s
    let (bytes, s) := take n s
    (b :: bytes, s)

end ByteSource

namespace Exponent

/-- The number of a candidate: the highest word loses its lowest bit. -/
def candidate (bytes : Bytes) : Nat :=
  let low := Bytes.toNat (bytes.take (width - 4)).reverse
  let word := Bytes.toNat (bytes.drop (width - 4)).reverse
  low + (word / 2) <<< (8 * (width - 4))

/-- The first of the given number of candidates that is below `q`. -/
def draw? {σ : Type} [ByteSource σ] : Nat → σ → Option (Exponent × σ)
  | 0, _ => none
  | attempts + 1, s =>
    let (bytes, s) := ByteSource.take width s
    let n := candidate bytes
    if n < order then some (⟨n⟩, s) else draw? attempts s

end Exponent

end ThresholdElGamal
