import ThresholdElGamal.Ciphertext.ElGamal
import ThresholdElGamal.Ciphertext.Hashed
import ThresholdElGamal.Election.Context
import ThresholdElGamal.Proof.ChaumPedersen

/-! # Ciphertexts of either kind and their decryption

Both kinds of ciphertext are opened by raising a pad to the secret key. The published
decryption is that mask with a proof that it is the right power.
-/

namespace ThresholdElGamal

inductive Cipher where
  | elgamal (c : Ciphertext)
  | hashed (c : HashedCiphertext)
deriving DecidableEq

namespace Cipher

def pad : Cipher → Element
  | elgamal c => c.pad
  | hashed c => c.c0

/-- The fields by which a ciphertext enters the challenge of its decryption. -/
def contentFields : Cipher → List Field
  | elgamal c => [.element c.pad, .element c.data]
  | hashed c => [.element c.c0, .raw c.c1, .digest c.c2]

def domainTag : Cipher → UInt8
  | elgamal _ => 0x30
  | hashed _ => 0x31

/-- What is hashed into the collective challenge, under the extended base hash. -/
def challengeInput (cipher : Cipher) (publicKey a b mask : Element) : List Field :=
  .tag cipher.domainTag :: .element publicKey :: cipher.contentFields ++
    [.element a, .element b, .element mask]

/-- The challenge for decrypting to `mask` with commitments `a` and `b`. -/
def collectiveChallenge (cipher : Cipher) (extendedBaseHash : Digest)
    (publicKey a b mask : Element) : Exponent :=
  (Field.hash extendedBaseHash.bytes (cipher.challengeInput publicKey a b mask)).toExponent

end Cipher

@[ext]
structure Decryption where
  beta : Element
  proof : ChaumPedersenProof
deriving DecidableEq

def Decryption.verify (d : Decryption) (cipher : Cipher) (context : ElectionContext) : Bool :=
  let k := context.jointPublicKey
  d.proof.verify k cipher.pad d.beta fun a b =>
    cipher.collectiveChallenge context.extendedBaseHash k a b d.beta

end ThresholdElGamal
