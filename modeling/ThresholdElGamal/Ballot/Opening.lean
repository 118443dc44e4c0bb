import ThresholdElGamal.Ballot.Opened
import ThresholdElGamal.Decryption.Session

/-! # Opening tallies and ballots

The ciphertexts of a tally or a ballot are decrypted in one session, in the order in which they
are listed; the decryptions are handed back to the selections and payloads in that order.
-/

namespace ThresholdElGamal

namespace Opening

inductive SelectionProblem where
  | flagged (reason : String)
  | noPlaintext (bound : UInt32)
deriving DecidableEq

def SelectionProblem.message : SelectionProblem → String
  | flagged reason => reason
  | noPlaintext bound => s!"no plaintext up to {bound}"

inductive ContestProblem where
  | selection (id : String) (problem : SelectionProblem)
  | dataFlagged (reason : String)
  | dataNotAuthentic
  | tooFewDecryptions
deriving DecidableEq

def ContestProblem.message : ContestProblem → String
  | selection id problem => within s!"selection {id}" problem.message
  | dataFlagged reason => within "contest data" reason
  | dataNotAuthentic => "contest data does not authenticate"
  | tooFewDecryptions => "session returned too few decryptions"

structure Problem where
  contestId : String
  problem : ContestProblem
deriving DecidableEq

def Problem.message (p : Problem) : String := within s!"contest {p.contestId}" p.problem.message

/-- Why a tally or a ballot is not opened. -/
inductive Failure where
  | session (problems : List Session.Problem)
  | plaintext (problems : List Problem)
deriving DecidableEq

/-- Decryptions that are still to be handed out, with their positions in the session. -/
abbrev Pending := List (Nat × Option Decryption)

def pending (d : Decryptions) : Pending := d.items.zipIdx.map fun (item, i) => (i, item)

variable (d : Decryptor) (flagged : Flags)

def openSelection (s : EncryptedSelection) (position : Nat) (item : Option Decryption)
    (log : DiscreteLog) : Except (List SelectionProblem) DecryptedSelection × DiscreteLog :=
  match item with
  | none => (.error (((flagged.get? position).getD []).map .flagged), log)
  | some decryption =>
    match Decryptor.recover log s.ciphertext decryption.beta with
    | (some tally, log) =>
      (.ok
        { selectionId := s.selectionId
          tally
          value := s.ciphertext.unmask decryption.beta
          ciphertext := s.ciphertext
          decryption }, log)
    | (none, log) => (.error [.noPlaintext d.config.maxDlog], log)

/-- What opening a list of selections yields and leaves over. -/
structure Selections where
  problems : List ContestProblem := []
  opened : List DecryptedSelection := []
  rest : Pending
  log : DiscreteLog

def openSelections : List EncryptedSelection → Pending → DiscreteLog → Selections
  | [], rest, log => { rest, log }
  | _ :: _, [], log => { problems := [.tooFewDecryptions], rest := [], log }
  | s :: ss, (position, item) :: rest, log =>
    let (result, log) := openSelection d flagged s position item log
    let others := openSelections ss rest log
    match result with
    | .ok opened => { others with opened := opened :: others.opened }
    | .error problems =>
      { others with problems := problems.map (.selection s.selectionId) ++ others.problems }

/-- Opens the payload of a contest, if it has one. -/
def openData (context : ElectionContext) (contestId : String) (data : Option HashedCiphertext)
    (rest : Pending) : List ContestProblem × Option DecryptedContestData × Pending :=
  match data, rest with
  | none, rest => ([], none, rest)
  | some _, [] => ([.tooFewDecryptions], none, [])
  | some _, (position, none) :: rest =>
    (((flagged.get? position).getD []).map .dataFlagged, none, rest)
  | some ciphertext, (_, some decryption) :: rest =>
    match ciphertext.decrypt context.jointPublicKey context.extendedBaseHash contestDataLabel
        contestId decryption.beta with
    | some data => ([], some { data, ciphertext, decryption }, rest)
    | none => ([.dataNotAuthentic], none, rest)

structure Contests (α : Type) where
  problems : List Problem := []
  opened : List α := []
  log : DiscreteLog

def openTallyContests : List ContestTally → Pending → DiscreteLog →
    Contests DecryptedContestTally
  | [], _, log => { log }
  | c :: cs, rest, log =>
    let selections := openSelections d flagged c.selections rest log
    let others := openTallyContests cs selections.rest selections.log
    { others with
      problems := selections.problems.map (.mk c.contestId) ++ others.problems
      opened := ⟨c.contestId, selections.opened⟩ :: others.opened }

def openBallotContests : List EncryptedContest → Pending → DiscreteLog →
    Contests DecryptedContest
  | [], _, log => { log }
  | c :: cs, rest, log =>
    let selections := openSelections d flagged c.selections rest log
    let (dataProblems, data, rest) :=
      openData flagged d.context c.contestId c.contestData selections.rest
    let others := openBallotContests cs rest selections.log
    { others with
      problems := (selections.problems ++ dataProblems).map (.mk c.contestId) ++ others.problems
      opened := ⟨c.contestId, selections.opened, data⟩ :: others.opened }

def tallyTexts (tally : EncryptedTally) : List Cipher :=
  tally.contests.flatMap fun c => c.selections.map fun s => .elgamal s.ciphertext

def contestTexts (c : EncryptedContest) : List Cipher :=
  c.selections.map (fun s => .elgamal s.ciphertext) ++ c.contestData.toList.map .hashed

/-- The ciphertexts of a ballot, in the order in which they are decrypted. -/
def ballotTexts (ballot : EncryptedBallot) : List Cipher := ballot.contests.flatMap contestTexts

def openTally (tally : EncryptedTally) (decryptions : Decryptions) (log : DiscreteLog) :
    Except (List Problem) DecryptedTally × DiscreteLog :=
  let result := openTallyContests d decryptions.flagged tally.contests (pending decryptions) log
  (unlessProblems result.problems ⟨result.opened, decryptions.guardianIds⟩, result.log)

def openBallot (ballot : EncryptedBallot) (decryptions : Decryptions) (log : DiscreteLog) :
    Except (List Problem) DecryptedBallot × DiscreteLog :=
  let result := openBallotContests d decryptions.flagged ballot.contests (pending decryptions) log
  (unlessProblems result.problems ⟨ballot.ballotId, result.opened, decryptions.guardianIds⟩,
    result.log)

/-- What a decryptor keeps from one session to the next. -/
structure State where
  metrics : Metrics := {}
  log : DiscreteLog

def initial : State := { log := d.startLog }

variable {m : Type → Type} [Monad m]

/-- Decrypts ciphertexts in a session and opens the result. -/
def decryptAndOpen {α : Type} (transport : Session.Transport m) (texts : List Cipher)
    (openResult : Decryptions → DiscreteLog → Except (List Problem) α × DiscreteLog)
    (state : State) : m (Except Failure α × State) := do
  let (result, metrics) ← Session.run d transport state.metrics texts
  match result with
  | .error problems => return (.error (.session problems), { state with metrics })
  | .ok decryptions =>
    let (opened, log) := openResult decryptions state.log
    return (opened.mapError .plaintext, { metrics, log })

def decryptTally (transport : Session.Transport m) (tally : EncryptedTally) (state : State) :
    m (Except Failure DecryptedTally × State) :=
  decryptAndOpen d transport (tallyTexts tally) (openTally d tally) state

def decryptBallot (transport : Session.Transport m) (ballot : EncryptedBallot) (state : State) :
    m (Except Failure DecryptedBallot × State) :=
  decryptAndOpen d transport (ballotTexts ballot) (openBallot d ballot) state

end Opening

end ThresholdElGamal
