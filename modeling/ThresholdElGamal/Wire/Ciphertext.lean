import ThresholdElGamal.Decryption.Cipher
import ThresholdElGamal.Wire.Basic

/-! # Group elements, ciphertexts and proofs on the wire

A ciphertext of either kind is the record of its kind with one more key that names the kind.
Because that key may come last, the other members are held until it is known, and so have to be
storable.
-/

namespace ThresholdElGamal.Wire

open Json (Value Slot)

instance : Wire Element where
  encode a := encodeNat a.val
  decode v := (decodeNat v).map .mk

instance : Wire Exponent where
  encode w := encodeNat w.val
  decode v := (decodeNat v).map .mk

instance : Wire Digest where
  encode d := encodeBytes d.bytes
  decode v := (decodeBytes v).bind Digest.ofBytes?

def ciphertextMembers (c : Ciphertext) : List (String × Value) :=
  [("pad", encode c.pad), ("data", encode c.data)]

instance : Wire Ciphertext where
  encode c := .record (ciphertextMembers c)
  decode v := do
    match ← v.slots? ["pad", "data"] with
    | [pad, data] => return ⟨← required decode pad, ← required decode data⟩
    | _ => none

def hashedMembers (c : HashedCiphertext) : List (String × Value) :=
  [("c0", encode c.c0), ("c1", encodeBytes c.c1), ("c2", encode c.c2),
    ("num_bytes", encode c.numBytes)]

instance : Wire HashedCiphertext where
  encode c := .record (hashedMembers c)
  decode v := do
    match ← v.slots? ["c0", "c1", "c2", "num_bytes"] with
    | [c0, c1, c2, numBytes] =>
      return ⟨← required decode c0, ← required decodeBytes c1, ← required decode c2,
        ← required decode numBytes⟩
    | _ => none

/-- How deep a text may be nested, up to the innermost value that is held for later use. -/
def nestingLimit : Nat := 127

def decodeKind (kind : Value) (body : Value) : Option Cipher :=
  match kind with
  | .string (some "elgamal") => (decode body).map .elgamal
  | .string (some "hashed") => (decode body).map .hashed
  | _ => none

/-- Reads a ciphertext of either kind that is nested no deeper than the given depth. -/
def decodeCipherWithin (depth : Nat) (v : Value) : Option Cipher :=
  if v.isStorable depth then
    match v with
    | .object members =>
      match Value.membersAt "kind" members with
      | [kind] => decodeKind kind v
      | _ => none
    | .array (kind :: fields) => decodeKind kind (.array fields)
    | _ => none
  else none

instance : Wire Cipher where
  encode
    | .elgamal c => .record (("kind", .text "elgamal") :: ciphertextMembers c)
    | .hashed c => .record (("kind", .text "hashed") :: hashedMembers c)
  decode := decodeCipherWithin nestingLimit

/-- A list of ciphertexts of either kind; its brackets are one of the levels that count. -/
def decodeBatch : Value → Option (List Cipher)
  | .array items => items.mapM (decodeCipherWithin (nestingLimit - 1))
  | _ => none

instance : Wire ChaumPedersenProof where
  encode p := .record [("challenge", encode p.challenge), ("response", encode p.response)]
  decode v := do
    match ← v.slots? ["challenge", "response"] with
    | [c, r] => return ⟨← required decode c, ← required decode r⟩
    | _ => none

instance : Wire SchnorrProof where
  encode p := .record [("challenge", encode p.challenge), ("response", encode p.response)]
  decode v := do
    match ← v.slots? ["challenge", "response"] with
    | [c, r] => return ⟨← required decode c, ← required decode r⟩
    | _ => none

instance : Wire Decryption where
  encode d := .record [("beta", encode d.beta), ("proof", encode d.proof)]
  decode v := do
    match ← v.slots? ["beta", "proof"] with
    | [beta, proof] => return ⟨← required decode beta, ← required decode proof⟩
    | _ => none

end ThresholdElGamal.Wire
