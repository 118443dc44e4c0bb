import ThresholdElGamal.Group.Element
import ThresholdElGamal.Hash.Hmac

/-! # What the protocol hashes

A hash input is a list of fields, each with its byte form: separators of one byte, numbers of
four bytes, texts behind their length, group elements and exponents at full width. The fields
are hashed end to end under a key.
-/

namespace ThresholdElGamal

inductive Field where
  | tag (b : UInt8)
  | word (w : UInt32)
  | text (s : String)
  | raw (bytes : Bytes)
  | element (a : Element)
  | exponent (w : Exponent)
  | digest (d : Digest)
deriving DecidableEq

namespace Field

/-- A text in UTF-8 behind the low 32 bits of its length. -/
def textBytes (s : String) : Bytes :=
  let body := Bytes.ofText s
  Bytes.ofUInt32 (UInt32.ofNat body.length) ++ body

def bytes : Field → Bytes
  | tag b => [b]
  | word w => Bytes.ofUInt32 w
  | text s => textBytes s
  | raw bytes => bytes
  | element a => a.bytes
  | exponent w => w.bytes
  | digest d => d.bytes

def encode (fields : List Field) : Bytes := fields.flatMap bytes

def hash (key : Bytes) (fields : List Field) : Digest := Hmac.mac key (encode fields)

end Field

end ThresholdElGamal
