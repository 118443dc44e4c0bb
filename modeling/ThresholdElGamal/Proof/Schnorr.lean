import ThresholdElGamal.Hash.Field

/-! # Schnorr proofs

A proof of possession of the secret behind a published commitment, bound to the place of the
commitment on the roster.
-/

namespace ThresholdElGamal

@[ext]
structure SchnorrProof where
  challenge : Exponent
  response : Exponent
deriving DecidableEq

namespace SchnorrProof

/-- What is hashed into the challenge, under the parameter base hash. -/
def challengeInput (x index : UInt32) (commitment h : Element) : List Field :=
  [.tag 0x10, .word x, .word index, .element commitment, .element h]

def challengeFor (parameterBaseHash : Digest) (x index : UInt32) (commitment h : Element) :
    Exponent :=
  (Field.hash parameterBaseHash.bytes (challengeInput x index commitment h)).toExponent

def prove (parameterBaseHash : Digest) (x index : UInt32) (secret oneTime : Exponent) :
    SchnorrProof :=
  let c := challengeFor parameterBaseHash x index (genPow secret) (genPow oneTime)
  ⟨c, oneTime - c * secret⟩

/-- Recomputes the one-time commitment and compares the challenge. -/
def check (proof : SchnorrProof) (parameterBaseHash : Digest) (x index : UInt32)
    (commitment : Element) : Bool :=
  let h := genPow proof.response * commitment ^ proof.challenge
  challengeFor parameterBaseHash x index commitment h = proof.challenge

end SchnorrProof

end ThresholdElGamal
