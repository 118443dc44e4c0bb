import ThresholdElGamal.Election.Roster

/-! # The election context

The public values that every proof of an election is bound to. They are hashed in a chain: the
group parameters, then the manifest and the counts, then the joint key and all commitments.
-/

namespace ThresholdElGamal

@[ext]
structure ElectionContext where
  numberOfGuardians : UInt32
  quorum : UInt32
  parameterBaseHash : Digest
  electionBaseHash : Digest
  extendedBaseHash : Digest
  jointPublicKey : Element
deriving DecidableEq

namespace ElectionContext

/-- The protocol version, filled up to 32 bytes with zeros. -/
def versionKey : Bytes := Bytes.ofText "v2.0.0" ++ List.replicate 26 0

def parameterInput : List Field :=
  [.tag 0x00, .raw (Bytes.ofNat width modulus), .raw (Bytes.ofNat width order),
    .element .generator]

/-- Binds the group parameters. -/
def parameterHash : Digest := Field.hash versionKey parameterInput

def electionInput (manifest : String) (numberOfGuardians quorum : UInt32) : List Field :=
  [.tag 0x01, .text manifest, .word numberOfGuardians, .word quorum]

/-- Binds the manifest and the counts. -/
def electionHash (parameterBaseHash : Digest) (manifest : String)
    (numberOfGuardians quorum : UInt32) : Digest :=
  Field.hash parameterBaseHash.bytes (electionInput manifest numberOfGuardians quorum)

def extendedInput (jointPublicKey : Element) (guardians : List Guardian) : List Field :=
  [.tag 0x12, .element jointPublicKey,
    .raw ((guardians.flatMap (·.commitments)).flatMap Element.bytes)]

/-- Binds the joint key and every commitment, in roster order. -/
def extendedHash (electionBaseHash : Digest) (jointPublicKey : Element)
    (guardians : List Guardian) : Digest :=
  Field.hash electionBaseHash.bytes (extendedInput jointPublicKey guardians)

inductive Problem where
  | quorumOutOfRange (quorum guardians : UInt32)
  | coefficientCount (id : String) (actual : Nat) (expected : UInt32)
  | guardian (id : String) (defect : Guardian.Defect)
deriving DecidableEq

def Problem.message : Problem → String
  | quorumOutOfRange k n => s!"quorum {k} is not between 1 and {n}"
  | coefficientCount id actual expected =>
    s!"guardian {id} has {actual} coefficients, expected {expected}"
  | guardian id defect => within s!"guardian {id}" defect.message

def guardianProblems (quorum : UInt32) (g : Guardian) : List Problem :=
  problemUnless (g.commitments.length = quorum.toNat)
      (.coefficientCount g.id g.commitments.length quorum) ++
    (g.defects parameterHash).map (.guardian g.id)

def problems (roster : Roster) (quorum : UInt32) : List Problem :=
  let n := UInt32.ofNat roster.size
  problemUnless (1 ≤ quorum && quorum ≤ n) (.quorumOutOfRange quorum n) ++
    roster.guardians.flatMap (guardianProblems quorum)

/-- The context of a roster whose polynomials have exactly `quorum` coefficients, all proven. -/
def derive (manifest : String) (roster : Roster) (quorum : UInt32) :
    Except (List Problem) ElectionContext :=
  let n := UInt32.ofNat roster.size
  let electionBaseHash := electionHash parameterHash manifest n quorum
  let jointPublicKey := roster.jointPublicKey
  unlessProblems (problems roster quorum)
    { numberOfGuardians := n
      quorum
      parameterBaseHash := parameterHash
      electionBaseHash
      extendedBaseHash := extendedHash electionBaseHash jointPublicKey roster.guardians
      jointPublicKey }

end ElectionContext

end ThresholdElGamal
