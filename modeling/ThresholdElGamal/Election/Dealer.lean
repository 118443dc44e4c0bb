import ThresholdElGamal.Ballot.Encrypted
import ThresholdElGamal.Election.Context
import ThresholdElGamal.Trustee.KeyHolder

/-! # A trusted dealer

For simulations: one party draws the polynomials of all guardians, publishes their records and
hands out the key shares.
-/

namespace ThresholdElGamal

namespace Dealer

def guardianId (x : UInt32) : String := s!"guardian-{x}"

def contestId (index : Nat) : String := s!"contest-{index}"

def selectionId (index : Nat) : String := s!"selection-{index}"

def guardian (id : String) (x : UInt32) (coefficients nonces : List Exponent) : Guardian where
  id
  xCoordinate := x
  commitments := coefficients.map genPow
  proofs := (coefficients.zip nonces).zipIdx.map fun ((a, u), j) =>
    .prove ElectionContext.parameterHash x (UInt32.ofNat j) a u

/-- Adds a polynomial at `x`, from the term with the given power of `x` on. -/
def addPolynomial (x : Exponent) : (power share : Exponent) → List Exponent → Exponent
  | _, share, [] => share
  | power, share, a :: as => addPolynomial x (power * x) (share + a * power) as

/-- The sum of the polynomials at `x`: the key share of the guardian there. -/
def keyShare (coefficients : List (List Exponent)) (x : UInt32) : Exponent :=
  let x := Exponent.ofNat x.toNat
  coefficients.foldl (addPolynomial x .one) .zero

def secretKey (coefficients : List (List Exponent)) : Exponent :=
  Exponent.sum (coefficients.filterMap (·.head?))

inductive Problem where
  | roster (p : Roster.Problem)
  | context (p : ElectionContext.Problem)
deriving DecidableEq

def Problem.message : Problem → String
  | roster p => p.message
  | context p => p.message

end Dealer

structure DealtElection where
  context : ElectionContext
  roster : Roster
  trustees : List KeyHolder
  /-- Known to the dealer alone. -/
  secretKey : Exponent

namespace Dealer

def guardians (coefficients nonces : List (List Exponent)) : List Guardian :=
  (coefficients.zip nonces).zipIdx.map fun ((as, us), i) =>
    let x := UInt32.ofNat (i + 1)
    guardian (guardianId x) x as us

/-- The holder of the key share of a guardian, whose own coefficients are `row`. -/
def keyHolder (coefficients : List (List Exponent)) (ttl : Nat) (row : List Exponent)
    (g : Guardian) : KeyHolder :=
  .new ⟨g.id, g.xCoordinate, genPow (row.headD .zero)⟩ (keyShare coefficients g.xCoordinate) ttl

def deal (manifest : String) (quorum : UInt32) (ttl : Nat)
    (coefficients nonces : List (List Exponent)) : Except (List Problem) DealtElection := do
  let roster ← (Roster.ofGuardians (guardians coefficients nonces)).mapError (·.map .roster)
  let context ← (ElectionContext.derive manifest roster quorum).mapError (·.map .context)
  let trustees := List.zipWith (keyHolder coefficients ttl) coefficients roster.guardians
  return { context, roster, trustees, secretKey := secretKey coefficients }

def present (e : DealtElection) (xs : List UInt32) : List KeyHolder :=
  e.trustees.filter fun t => xs.contains t.profile.xCoordinate

variable {m : Type → Type} [Monad m]

def draws (draw : m Exponent) (count : Nat) : m (List Exponent) :=
  (List.range count).mapM fun _ => draw

/-- Draws all coefficients, then a nonce for every proof, and deals. -/
def generate (draw : m Exponent) (manifest : String) (numberOfGuardians quorum : UInt32)
    (ttl : Nat) : m (Except (List Problem) DealtElection) := do
  let rows := List.range numberOfGuardians.toNat
  let coefficients ← rows.mapM fun _ => draws draw quorum.toNat
  let nonces ← rows.mapM fun _ => draws draw quorum.toNat
  return deal manifest quorum ttl coefficients nonces

def encryptContest (draw : m Exponent) (context : ElectionContext) (index : Nat)
    (votes : List UInt32) (data : Option Bytes) : m EncryptedContest := do
  let k := context.jointPublicKey
  let selections ← votes.zipIdx.mapM fun (v, i) => do
    return ⟨selectionId i, .encrypt k v (← draw)⟩
  let contestData ← data.mapM fun message => do
    return .encrypt k context.extendedBaseHash contestDataLabel (contestId index) message (← draw)
  return ⟨contestId index, selections, contestData⟩

/-- Encrypts a ballot: a row of votes for each contest, and payloads for some of them. -/
def encryptBallot (draw : m Exponent) (context : ElectionContext) (ballotId : String)
    (votes : List (List UInt32)) (contestData : List (Option Bytes)) : m EncryptedBallot := do
  let contests ← votes.zipIdx.mapM fun (row, i) =>
    encryptContest draw context i row contestData[i]?.join
  return ⟨ballotId, contests⟩

end Dealer

end ThresholdElGamal
