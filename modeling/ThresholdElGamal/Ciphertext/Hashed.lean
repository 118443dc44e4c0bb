import ThresholdElGamal.Hash.Field

/-! # Hashed ElGamal

A payload of any length is padded to blocks and combined with a key stream derived from the
value that the sender and the key holder share; a tag authenticates the result. The keyed hash
is a parameter of the key derivation, which is only ever used through it.
-/

namespace ThresholdElGamal

@[ext]
structure HashedCiphertext where
  c0 : Element
  c1 : Bytes
  c2 : Digest
  /-- The length of the payload. -/
  numBytes : UInt32
deriving DecidableEq

namespace HashedCiphertext

def blockSize : Nat := 32

/-- Every payload takes up at least one block. -/
def blockCount (numBytes : Nat) : Nat := max 1 ((numBytes + blockSize - 1) / blockSize)

/-- The payload with zeros up to the end of its last block. -/
def padded (message : Bytes) : Bytes :=
  message ++ List.replicate (blockCount message.length * blockSize - message.length) 0

/-- The secret from which the keys of one ciphertext are derived, and what they are bound to. -/
structure KeyStream where
  mac : Hmac.Mac
  key : Digest
  label : String
  context : String
  /-- The length of the payload in bits, modulo `2 ^ 32`. -/
  bitLength : UInt32

/-- What is hashed into the secret, under the extended base hash. -/
def secretInput (publicKey c0 beta : Element) : List Field :=
  [.tag 0x22, .element publicKey, .element c0, .element beta]

namespace KeyStream

def derive (mac : Hmac.Mac) (extendedBaseHash : Digest) (publicKey c0 beta : Element)
    (label context : String) (numBytes : Nat) : KeyStream where
  mac
  key := mac extendedBaseHash.bytes (Field.encode (secretInput publicKey c0 beta))
  label
  context
  bitLength := UInt32.ofNat (numBytes * 8)

/-- What is hashed into the key with the given index. -/
def input (k : KeyStream) (index : UInt32) : List Field :=
  [.word index, .text k.label, .tag 0, .text k.context, .word k.bitLength]

/-- Key zero authenticates; the keys from one on encrypt one block each. -/
def blockKey (k : KeyStream) (index : UInt32) : Digest :=
  k.mac k.key.bytes (Field.encode (k.input index))

def tag (k : KeyStream) (c0 : Element) (c1 : Bytes) : Digest :=
  k.mac (k.blockKey 0).bytes (c0.bytes ++ c1)

/-- Combines the given number of blocks with their keys, from the one after `index` on. -/
def applyFrom (k : KeyStream) : (index blocks : Nat) → Bytes → Bytes
  | _, 0, _ => []
  | index, blocks + 1, bytes =>
    let key := k.blockKey (UInt32.ofNat (index + 1))
    List.zipWith (· ^^^ ·) (bytes.take blockSize) key.bytes ++
      k.applyFrom (index + 1) blocks (bytes.drop blockSize)

def apply (k : KeyStream) (bytes : Bytes) : Bytes :=
  k.applyFrom 0 (bytes.length / blockSize) bytes

end KeyStream

section

variable (mac : Hmac.Mac) (publicKey : Element) (extendedBaseHash : Digest)
  (label context : String)

def encryptWith (message : Bytes) (nonce : Exponent) : HashedCiphertext :=
  let c0 := genPow nonce
  let k := KeyStream.derive mac extendedBaseHash publicKey c0 (publicKey ^ nonce) label context
    message.length
  let c1 := k.apply (padded message)
  ⟨c0, c1, k.tag c0 c1, UInt32.ofNat message.length⟩

/-- The payload, given the shared value; none if the length or the tag is wrong. -/
def decryptWith (c : HashedCiphertext) (beta : Element) : Option Bytes :=
  let numBytes := c.numBytes.toNat
  let k := KeyStream.derive mac extendedBaseHash publicKey c.c0 beta label context numBytes
  if c.c1.length = blockCount numBytes * blockSize ∧ k.tag c.c0 c.c1 = c.c2 then
    some ((k.apply c.c1).take numBytes)
  else none

end

def encrypt (publicKey : Element) (extendedBaseHash : Digest) (label context : String)
    (message : Bytes) (nonce : Exponent) : HashedCiphertext :=
  encryptWith Hmac.mac publicKey extendedBaseHash label context message nonce

def decrypt (publicKey : Element) (extendedBaseHash : Digest) (label context : String)
    (c : HashedCiphertext) (beta : Element) : Option Bytes :=
  decryptWith Hmac.mac publicKey extendedBaseHash label context c beta

end HashedCiphertext

end ThresholdElGamal
