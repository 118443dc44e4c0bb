import ThresholdElGamal.Proof.Schnorr
import ThresholdElGamal.Record.Message

/-! # Guardians

The published record of a guardian: commitments to the coefficients of its secret polynomial,
each with a proof of possession.
-/

namespace ThresholdElGamal

@[ext]
structure Guardian where
  id : String
  /-- Where the other guardians evaluate their polynomials for this one. -/
  xCoordinate : UInt32
  commitments : List Element
  proofs : List SchnorrProof
deriving DecidableEq

namespace Guardian

inductive Defect where
  | proofCount (commitments proofs : Nat)
  | notResidue (index : Nat)
  | badProof (index : Nat)
deriving DecidableEq

def Defect.message : Defect → String
  | proofCount c p => s!"{c} commitments but {p} proofs"
  | notResidue j => s!"commitment {j} is not a valid residue"
  | badProof j => s!"coefficient proof {j} does not verify"

def publicKey? (g : Guardian) : Option Element := g.commitments.head?

/-- The defects of the commitment and the proof at one index. -/
def coefficientDefects (parameterBaseHash : Digest) (x : UInt32) (commitment : Element)
    (proof : SchnorrProof) (index : Nat) : List Defect :=
  problemUnless commitment.isResidue (.notResidue index) ++
    problemUnless (proof.check parameterBaseHash x (UInt32.ofNat index) commitment)
      (.badProof index)

/-- Checks that commitments and proofs line up, and every pair of them. -/
def defects (g : Guardian) (parameterBaseHash : Digest) : List Defect :=
  problemUnless (g.commitments.length = g.proofs.length)
      (.proofCount g.commitments.length g.proofs.length) ++
    (g.commitments.zip g.proofs).zipIdx.flatMap fun ((commitment, proof), index) =>
      coefficientDefects parameterBaseHash g.xCoordinate commitment proof index

def defectMessage (g : Guardian) (d : Defect) : String :=
  within s!"guardian {g.id}" d.message

/-- The product of the commitments to increasing powers, from a power of `x` on. -/
def evaluateFrom (x power : Exponent) : List Element → Element → Element
  | [], product => product
  | k :: ks, product => evaluateFrom x (power * x) ks (product * k ^ power)

/-- The guardian's polynomial at `x`, in the exponent of the generator. -/
def evaluate (g : Guardian) (x : UInt32) : Element :=
  evaluateFrom (Exponent.ofNat x.toNat) .one g.commitments .one

end Guardian

end ThresholdElGamal
