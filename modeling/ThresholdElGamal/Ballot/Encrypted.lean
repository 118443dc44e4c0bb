import ThresholdElGamal.Ciphertext.ElGamal
import ThresholdElGamal.Ciphertext.Hashed
import ThresholdElGamal.Record.Message

/-! # Encrypted ballots and their sum

Ballots of one layout are added selection by selection. The first ballot sets the layout.
-/

namespace ThresholdElGamal

@[ext]
structure EncryptedSelection where
  selectionId : String
  ciphertext : Ciphertext
deriving DecidableEq

@[ext]
structure EncryptedContest where
  contestId : String
  selections : List EncryptedSelection
  /-- The payload of the contest, encrypted under its id. -/
  contestData : Option HashedCiphertext := none
deriving DecidableEq

@[ext]
structure EncryptedBallot where
  ballotId : String
  contests : List EncryptedContest
deriving DecidableEq

@[ext]
structure ContestTally where
  contestId : String
  selections : List EncryptedSelection
deriving DecidableEq

@[ext]
structure EncryptedTally where
  contests : List ContestTally
deriving DecidableEq

def contestDataLabel : String := "contest_data"

namespace EncryptedTally

/-- How a ballot can differ from the layout. -/
inductive Defect where
  | contestCount (actual expected : Nat)
  | contest (actual expected : String)
deriving DecidableEq

def Defect.message : Defect → String
  | contestCount actual n => s!"{actual} contests, expected {n}"
  | contest actual expected => s!"contest {actual} does not match contest {expected}"

structure Problem where
  ballotId : String
  defect : Defect
deriving DecidableEq

def Problem.message (p : Problem) : String := within s!"ballot {p.ballotId}" p.defect.message

def blank (ballot : EncryptedBallot) : EncryptedTally where
  contests := ballot.contests.map fun c =>
    ⟨c.contestId, c.selections.map fun s => ⟨s.selectionId, .zero⟩⟩

def fits (contest : EncryptedContest) (total : ContestTally) : Bool :=
  contest.contestId == total.contestId &&
    contest.selections.map (·.selectionId) == total.selections.map (·.selectionId)

def addSelection (s sum : EncryptedSelection) : EncryptedSelection :=
  { sum with ciphertext := sum.ciphertext + s.ciphertext }

/-- Adds a contest that fits; one that does not leaves the total as it is. -/
def addContest (contest : EncryptedContest) (total : ContestTally) : ContestTally :=
  if fits contest total then
    { total with selections := List.zipWith addSelection contest.selections total.selections }
  else total

def contestDefects (contest : EncryptedContest) (total : ContestTally) : List Defect :=
  problemUnless (fits contest total) (.contest contest.contestId total.contestId)

def ballotDefects (tally : EncryptedTally) (ballot : EncryptedBallot) : List Defect :=
  if ballot.contests.length = tally.contests.length then
    (ballot.contests.zip tally.contests).flatMap fun (c, total) => contestDefects c total
  else [.contestCount ballot.contests.length tally.contests.length]

/-- Adds a ballot; one with another number of contests leaves the tally as it is. -/
def addBallot (tally : EncryptedTally) (ballot : EncryptedBallot) : EncryptedTally :=
  if ballot.contests.length = tally.contests.length then
    ⟨List.zipWith addContest ballot.contests tally.contests⟩
  else tally

/-- Adds up ballots, or reports every ballot that differs from the layout. -/
def accumulate (ballots : List EncryptedBallot) : Except (List Problem) EncryptedTally :=
  match ballots with
  | [] => .ok ⟨[]⟩
  | first :: _ =>
    let problems := ballots.flatMap fun b => (ballotDefects (blank first) b).map (.mk b.ballotId)
    unlessProblems problems (ballots.foldl addBallot (blank first))

def numSelections (tally : EncryptedTally) : Nat :=
  (tally.contests.flatMap (·.selections)).length

end EncryptedTally

end ThresholdElGamal
