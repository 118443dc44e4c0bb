import ThresholdElGamal.Group.Element

/-! # Chaum-Pedersen proofs

A proof that one exponent leads from the generator to the public key and from the pad to the
mask. The commitments are not stored: they follow from challenge and response.
-/

namespace ThresholdElGamal

@[ext]
structure ChaumPedersenProof where
  challenge : Exponent
  response : Exponent
deriving DecidableEq

namespace ChaumPedersenProof

/-- The commitments that make the transcript accept, one for each base. -/
def commitments (proof : ChaumPedersenProof) (publicKey pad mask : Element) : Element × Element :=
  (genPow proof.response * publicKey ^ proof.challenge,
    pad ^ proof.response * mask ^ proof.challenge)

/-- Compares the challenge with the one derived from the recomputed commitments. -/
def verify (proof : ChaumPedersenProof) (publicKey pad mask : Element)
    (challengeFor : Element → Element → Exponent) : Bool :=
  let (a, b) := proof.commitments publicKey pad mask
  challengeFor a b = proof.challenge

/-- Compares the recomputed commitments with known ones. -/
def accepts (proof : ChaumPedersenProof) (publicKey pad mask a b : Element) : Bool :=
  proof.commitments publicKey pad mask = (a, b)

end ChaumPedersenProof

end ThresholdElGamal
