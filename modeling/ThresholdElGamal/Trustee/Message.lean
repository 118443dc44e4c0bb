import ThresholdElGamal.Bytes.Hex
import ThresholdElGamal.Group.Element

/-! # What trustees are asked and answer

A decryption takes two rounds; a batch id links the challenge of the second round to the
answers of the first.
-/

namespace ThresholdElGamal

@[ext]
structure BatchId where
  val : UInt64
deriving DecidableEq

namespace BatchId

/-- The id of the empty batch, which opens no session. -/
def none : BatchId := ⟨0⟩

def display (b : BatchId) : String := Hex.ofUInt64 b.val

end BatchId

/-- One trustee's contribution for one ciphertext: its part of the mask, and commitments to a
nonce in both bases. -/
@[ext]
structure PartialDecryption where
  mi : Element
  a : Element
  b : Element
deriving DecidableEq

@[ext]
structure PartialDecryptions where
  batchId : BatchId
  partials : List PartialDecryption
  /-- The positions of pads that are not valid residues. -/
  invalidPads : List UInt64
deriving DecidableEq

@[ext]
structure ChallengeResponses where
  batchId : BatchId
  responses : List Exponent
deriving DecidableEq

inductive TrusteeError where
  | unknownBatch (batchId : BatchId)
  | lengthMismatch (batchId : BatchId) (expected actual : UInt64)
  | unavailable (reason : String)
deriving DecidableEq

def TrusteeError.message : TrusteeError → String
  | unknownBatch b => s!"unknown batch id {b.display} (never issued, already used, or expired)"
  | lengthMismatch b expected actual =>
    s!"batch {b.display} has {expected} ciphertexts but {actual} challenges were sent"
  | unavailable reason => s!"trustee unavailable: {reason}"

end ThresholdElGamal
