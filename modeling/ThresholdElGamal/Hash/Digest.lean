import ThresholdElGamal.Bytes.Hex
import ThresholdElGamal.Group.Exponent

/-! # Digests

The 32 bytes that the hash returns.
-/

namespace ThresholdElGamal

@[ext]
structure Digest where
  bytes : Bytes
  length_bytes : bytes.length = 32
deriving DecidableEq

namespace Digest

def ofBytes? (bytes : Bytes) : Option Digest :=
  if h : bytes.length = 32 then some ⟨bytes, h⟩ else none

/-- The big-endian number of the digest, reduced modulo `q`. -/
def toExponent (d : Digest) : Exponent := Exponent.ofBytes d.bytes

def toHex (d : Digest) : String := Hex.ofBytes d.bytes

@[simp] theorem ofBytes?_bytes (d : Digest) : ofBytes? d.bytes = some d :=
  dif_pos d.length_bytes

end Digest

end ThresholdElGamal
