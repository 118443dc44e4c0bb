import ThresholdElGamal.Trustee.Message
import ThresholdElGamal.Wire.Ciphertext

/-! # Trustee messages on the wire

A refusal is an object whose only key names the cause.
-/

namespace ThresholdElGamal.Wire

open Json (Value)

instance : Wire BatchId where
  encode b := encode b.val
  decode v := (decode v).map .mk

instance : Wire PartialDecryption where
  encode p := .record [("mi", encode p.mi), ("a", encode p.a), ("b", encode p.b)]
  decode v := do
    match ← v.slots? ["mi", "a", "b"] with
    | [mi, a, b] => return ⟨← required decode mi, ← required decode a, ← required decode b⟩
    | _ => none

instance : Wire PartialDecryptions where
  encode p := .record
    [("batch_id", encode p.batchId), ("partial_decryptions", encode p.partials),
      ("invalid_pads", encode p.invalidPads)]
  decode v := do
    match ← v.slots? ["batch_id", "partial_decryptions", "invalid_pads"] with
    | [batchId, partials, invalidPads] =>
      return ⟨← required decode batchId, ← required decode partials,
        ← orDefault [] decode invalidPads⟩
    | _ => none

instance : Wire ChallengeResponses where
  encode r := .record [("batch_id", encode r.batchId), ("responses", encode r.responses)]
  decode v := do
    match ← v.slots? ["batch_id", "responses"] with
    | [batchId, responses] => return ⟨← required decode batchId, ← required decode responses⟩
    | _ => none

def decodeLengthMismatch (v : Value) : Option TrusteeError := do
  match ← v.slots? ["batch_id", "expected", "actual"] with
  | [batchId, expected, actual] =>
    return .lengthMismatch (← required decode batchId) (← required decode expected)
      (← required decode actual)
  | _ => none

instance : Wire TrusteeError where
  encode
    | .unknownBatch b => .record [("UnknownBatch", encode b)]
    | .lengthMismatch b expected actual => .record
      [("LengthMismatch", .record
        [("batch_id", encode b), ("expected", encode expected), ("actual", encode actual)])]
    | .unavailable reason => .record [("Unavailable", encode reason)]
  decode
    | .object [(k, v)] =>
      match k.text with
      | some "UnknownBatch" => (decode v).map .unknownBatch
      | some "LengthMismatch" => decodeLengthMismatch v
      | some "Unavailable" => (decode v).map .unavailable
      | _ => none
    | _ => none

end ThresholdElGamal.Wire
