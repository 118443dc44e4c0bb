import ThresholdElGamal.Ballot.Encrypted
import ThresholdElGamal.Decryption.Decryptions

/-! # Opened selections, tallies and ballots

The published records, and their verification from the election context alone.
-/

namespace ThresholdElGamal

/-- A count with its encoding and the proof that it is what the ciphertext holds. -/
@[ext]
structure DecryptedSelection where
  selectionId : String
  tally : UInt32
  /-- The joint key to the power of the count. -/
  value : Element
  ciphertext : Ciphertext
  decryption : Decryption
deriving DecidableEq

@[ext]
structure DecryptedContestTally where
  contestId : String
  selections : List DecryptedSelection
deriving DecidableEq

@[ext]
structure DecryptedTally where
  contests : List DecryptedContestTally
  guardianIds : List String
deriving DecidableEq

@[ext]
structure DecryptedContestData where
  data : Bytes
  ciphertext : HashedCiphertext
  decryption : Decryption
deriving DecidableEq

@[ext]
structure DecryptedContest where
  contestId : String
  selections : List DecryptedSelection
  contestData : Option DecryptedContestData
deriving DecidableEq

@[ext]
structure DecryptedBallot where
  ballotId : String
  contests : List DecryptedContest
  guardianIds : List String
deriving DecidableEq

namespace Verification

inductive SelectionDefect where
  | proof
  | value
  | count (tally : UInt32)
deriving DecidableEq

def SelectionDefect.message : SelectionDefect → String
  | proof => "decryption proof does not verify"
  | value => "value does not match the decryption"
  | count t => s!"value does not encode {t}"

inductive Defect where
  | selection (id : String) (defect : SelectionDefect)
  | dataProof
  | dataMismatch
deriving DecidableEq

def Defect.message : Defect → String
  | selection id defect => within s!"selection {id}" defect.message
  | dataProof => "contest data proof does not verify"
  | dataMismatch => "contest data does not match its ciphertext"

structure Problem where
  contestId : String
  defect : Defect
deriving DecidableEq

def Problem.message (p : Problem) : String := within s!"contest {p.contestId}" p.defect.message

end Verification

open Verification

/-- Checks the proof, the value and the count. -/
def DecryptedSelection.defects (s : DecryptedSelection) (context : ElectionContext) :
    List SelectionDefect :=
  problemUnless (s.decryption.verify (.elgamal s.ciphertext) context) .proof ++
    problemUnless (s.value = s.ciphertext.unmask s.decryption.beta) .value ++
    problemUnless (s.value = context.jointPublicKey.powNat s.tally.toNat) (.count s.tally)

def selectionDefects (context : ElectionContext) (selections : List DecryptedSelection) :
    List Defect :=
  selections.flatMap fun s => (s.defects context).map (.selection s.selectionId)

def DecryptedContestData.defects (d : DecryptedContestData) (contestId : String)
    (context : ElectionContext) : List Defect :=
  problemUnless (d.decryption.verify (.hashed d.ciphertext) context) .dataProof ++
    problemUnless
      (d.ciphertext.decrypt context.jointPublicKey context.extendedBaseHash contestDataLabel
        contestId d.decryption.beta = some d.data)
      .dataMismatch

namespace DecryptedTally

def problems (tally : DecryptedTally) (context : ElectionContext) : List Problem :=
  tally.contests.flatMap fun c =>
    (selectionDefects context c.selections).map (.mk c.contestId)

/-- Checks every proof and every count against the context. -/
def verify (tally : DecryptedTally) (context : ElectionContext) : Except (List Problem) Unit :=
  unlessProblems (tally.problems context) ()

def count? (tally : DecryptedTally) (contestId selectionId : String) : Option UInt32 := do
  let contest ← tally.contests.find? (·.contestId == contestId)
  let selection ← contest.selections.find? (·.selectionId == selectionId)
  return selection.tally

end DecryptedTally

namespace DecryptedBallot

def contestDefects (context : ElectionContext) (c : DecryptedContest) : List Defect :=
  selectionDefects context c.selections ++
    match c.contestData with
    | some d => d.defects c.contestId context
    | none => []

def problems (ballot : DecryptedBallot) (context : ElectionContext) : List Problem :=
  ballot.contests.flatMap fun c => (contestDefects context c).map (.mk c.contestId)

def verify (ballot : DecryptedBallot) (context : ElectionContext) : Except (List Problem) Unit :=
  unlessProblems (ballot.problems context) ()

end DecryptedBallot

end ThresholdElGamal
