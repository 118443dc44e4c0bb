import ThresholdElGamal.Random.Bytes

/-! # A seeded byte source

The SplitMix64 generator, behind a stock of bytes that are handed out first.
-/

namespace ThresholdElGamal

structure SplitMix where
  state : UInt64
  /-- Bytes to hand out before the generator is asked again. -/
  stock : Bytes := []
deriving DecidableEq

namespace SplitMix

def step (state : UInt64) : UInt64 × UInt64 :=
  let state := state + 0x9E3779B97F4A7C15
  let z := (state ^^^ state >>> 30) * 0xBF58476D1CE4E5B9
  let z := (z ^^^ z >>> 27) * 0x94D049BB133111EB
  (z ^^^ z >>> 31, state)

/-- The next byte: outputs are handed out least significant byte first. -/
def next (s : SplitMix) : UInt8 × SplitMix :=
  match s.stock with
  | b :: stock => (b, { s with stock })
  | [] =>
    let (output, state) := step s.state
    match (Bytes.ofUInt64 output).reverse with
    | b :: stock => (b, { state, stock })
    | [] => (0, { state })

instance : ByteSource SplitMix := ⟨next⟩

/-- Draws an exponent; a stock can hold one bad candidate for each of its bytes, and the
generator is given many more attempts than it will ever need. -/
def drawExponent (s : SplitMix) : Option (Exponent × SplitMix) :=
  Exponent.draw? (s.stock.length + 1000) s

end SplitMix

end ThresholdElGamal
