import ThresholdElGamal.Ballot.Opening
import ThresholdElGamal.Election.Dealer
import ThresholdElGamal.Random.SplitMix

/-! # Simulated elections

An election is dealt, ballots with one vote each are cast and added up, and the trustees that
are present open the tally. One seed determines everything.
-/

namespace ThresholdElGamal.Simulation

structure Parameters where
  manifest : String := "simulated election"
  guardians : UInt32 := 5
  quorum : UInt32 := 3
  /-- The coordinates of the trustees that take part; everyone if there are none. -/
  present : List UInt32 := []
  ballots : Nat := 20
  /-- The number of selections in the only contest. -/
  selections : Nat := 3
  seed : UInt64 := 0
deriving DecidableEq

structure Report where
  tally : DecryptedTally
  decryptor : Metrics
  guardians : Metrics

inductive Failure where
  | dealing (problems : List Dealer.Problem)
  | casting (problems : List EncryptedTally.Problem)
  | configuration (problems : List Decryptor.Problem)
  | session (problems : List Session.Problem)
  | plaintext (problems : List Opening.Problem)
  | verification (problems : List Verification.Problem)
  /-- The source of randomness yields no exponent. -/
  | randomness

def Failure.message : Failure → String
  | dealing ps => Stage.configuration.display (ps.map (·.message))
  | casting ps => Stage.layout.display (ps.map (·.message))
  | configuration ps => Stage.configuration.display (ps.map (·.message))
  | session ps => Stage.session.display (ps.map (·.message))
  | plaintext ps => Stage.plaintext.display (ps.map (·.message))
  | verification ps => Stage.verification.display (ps.map (·.message))
  | randomness => "no random exponent"

structure World where
  random : SplitMix
  holders : List KeyHolder := []

abbrev Run := ExceptT Failure (StateM World)

def drawExponent : Run Exponent := do
  let w ← get
  match w.random.drawExponent with
  | some (exponent, random) =>
    set { w with random }
    return exponent
  | none => throw .randomness

def drawWord : Run UInt64 := do
  let w ← get
  let (word, state) := SplitMix.step w.random.state
  set { w with random := { w.random with state } }
  return word

def putHolder (t : KeyHolder) : Run Unit :=
  modify fun w => { w with
    holders := w.holders.map fun u => if u.profile.id = t.profile.id then t else u }

/-- How many batch ids a key holder tries. -/
def idCandidates : Nat := 8

/-- Asks the key holder of the given name; time stands still. -/
def askHolder {α : Type} (id : String) (ask : KeyHolder → Run (Reply α)) : Run (Reply α) := do
  match (← get).holders.find? (·.profile.id == id) with
  | some t => ask t
  | none => return .silent

def transport : Session.Transport Run where
  decrypt p pads := askHolder p.id fun t => do
    let seed ← drawExponent
    let candidates ← (List.range idCandidates).mapM fun _ => return ⟨← drawWord⟩
    match t.decrypt 0 candidates seed pads with
    | some (answer, t) =>
      putHolder t
      return .answered answer
    | none => return .silent
  challenge p batchId challenges := askHolder p.id fun t => do
    let (result, t) := t.challenge 0 batchId challenges
    putHolder t
    match result with
    | .ok answer => return .answered answer
    | .error e => return .refused e

def orFail {ε α : Type} (failure : ε → Failure) (result : Except ε α) : Run α :=
  MonadExcept.ofExcept (result.mapError failure)

def votesFor (selections choice : Nat) : List UInt32 :=
  (List.range selections).map fun s => if s = choice then 1 else 0

def castBallot (context : ElectionContext) (selections index : Nat) : Run EncryptedBallot := do
  let choice := (← drawWord).toNat % max 1 selections
  Dealer.encryptBallot drawExponent context s!"ballot-{index}" [votesFor selections choice] []

def openingFailure : Opening.Failure → Failure
  | .session problems => .session problems
  | .plaintext problems => .plaintext problems

/-- Deals, casts, adds up, opens and verifies. -/
def run (p : Parameters) (config : DecryptionConfig) : Run Report := do
  let election ← orFail .dealing
    (← Dealer.generate drawExponent p.manifest p.guardians p.quorum config.sessionTtlSecs.toNat)
  let ballots ← (List.range p.ballots).mapM (castBallot election.context p.selections)
  let encrypted ← orFail .casting (EncryptedTally.accumulate ballots)
  let trustees :=
    if p.present.isEmpty then election.trustees else Dealer.present election p.present
  modify fun w => { w with holders := trustees }
  let d ← orFail .configuration
    (Decryptor.new election.context election.roster (trustees.map (·.profile)) config)
  let (result, state) ← Opening.decryptTally d transport encrypted (Opening.initial d)
  let tally ← orFail openingFailure result
  orFail .verification (tally.verify d.context)
  return { tally, decryptor := state.metrics, guardians := election.roster.initialMetrics }

def simulate (p : Parameters) (config : DecryptionConfig) : Except Failure Report :=
  ((run p config).run { random := { state := p.seed } }).1

end ThresholdElGamal.Simulation
