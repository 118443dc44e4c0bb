import ThresholdElGamal.Decryption.Decryptions
import ThresholdElGamal.Decryption.Decryptor

/-! # Decryption sessions

A session decrypts a batch in two rounds. The answers of round one are combined with the
weights of the trustees that gave them; the combination is hashed into one challenge for each
ciphertext; the weighted responses of round two add up to one proof under the joint key. Round
one tolerates silence as long as a quorum answers, round two tolerates nothing.
-/

namespace ThresholdElGamal

/-- How a call to a trustee ends within the time of a round. -/
inductive Reply (α : Type) where
  | silent
  | crashed
  | refused (e : TrusteeError)
  | answered (answer : α)

def Reply.isSilent {α : Type} : Reply α → Bool
  | silent => true
  | _ => false

namespace Session

inductive Fault where
  | decryptFailed (e : TrusteeError)
  | partialCount (actual expected : Nat)
  | flagOutOfRange (position : UInt64)
  | noAnswer
  | challengeFailed (e : TrusteeError)
  | wrongBatch (actual expected : BatchId)
  | responseCount (actual expected : Nat)
  | noCommitments
  | badResponse (position : Nat)
deriving DecidableEq

def Fault.message : Fault → String
  | decryptFailed e => s!"decrypt failed: {e.message}"
  | partialCount actual n => s!"returned {actual} partial decryptions for {n} ciphertexts"
  | flagOutOfRange i => s!"flagged pad {i} is out of range"
  | noAnswer => "did not answer the challenge in time"
  | challengeFailed e => s!"challenge failed: {e.message}"
  | wrongBatch actual b => s!"answered for batch {actual.display} instead of {b.display}"
  | responseCount actual n => s!"returned {actual} responses for {n} ciphertexts"
  | noCommitments => "no published commitments"
  | badResponse i =>
    within s!"ciphertext {i}" "response does not match the trustee's commitments"

inductive Problem where
  | trustee (id : String) (fault : Fault)
  | belowQuorum (answered : Nat) (quorum : UInt32)
deriving DecidableEq

def Problem.message : Problem → String
  | trustee id fault => within s!"trustee {id}" fault.message
  | belowQuorum r k => s!"only {r} trustees answered round one but the quorum is {k}"

def crashError (t : TrusteeProfile) : TrusteeError := .unavailable s!"trustee {t.id} panicked"

/-- A trustee that answered round one with a contribution for every ciphertext. -/
structure Responder where
  trustee : TrusteeProfile
  answer : PartialDecryptions
deriving DecidableEq

def openingFaults (n : Nat) (t : TrusteeProfile) : Reply PartialDecryptions → List Fault
  | .silent => []
  | .crashed => [.decryptFailed (crashError t)]
  | .refused e => [.decryptFailed e]
  | .answered a =>
    if a.partials.length = n then
      (a.invalidPads.filter fun i => n ≤ i.toNat).map .flagOutOfRange
    else [.partialCount a.partials.length n]

def responder? (n : Nat) (t : TrusteeProfile) : Reply PartialDecryptions → Option Responder
  | .answered a => if a.partials.length = n then some ⟨t, a⟩ else none
  | _ => none

def flagReason (t : TrusteeProfile) : String := s!"trustee {t.id}: pad is not a valid residue"

def Responder.addFlags (flags : Flags) (r : Responder) : Flags :=
  r.answer.invalidPads.foldl (fun flags i => flags.add i (flagReason r.trustee)) flags

/-- The trustees that take part in a session, with their weights and what they flagged. -/
structure Panel where
  responders : List Responder
  weights : List LagrangeCoordinate
  flagged : Flags
deriving DecidableEq

/-- The panel that the replies of round one form, or why they form none. -/
def assemble (d : Decryptor) (n : Nat) (replies : List (Reply PartialDecryptions)) :
    Except (List Problem) Panel :=
  let asked := d.trustees.zip replies
  let responders := asked.filterMap fun (t, reply) => responder? n t reply
  let problems :=
    (asked.flatMap fun (t, reply) => (openingFaults n t reply).map (.trustee t.id)) ++
      problemUnless (d.context.quorum.toNat ≤ responders.length)
        (.belowQuorum responders.length d.context.quorum)
  unlessProblems problems
    { responders
      weights :=
        if replies.any Reply.isSilent then Decryptor.weightsOf (responders.map (·.trustee))
        else d.fullWeights
      flagged := responders.foldl Responder.addFlags .empty }

/-- The mask of one ciphertext and the collective challenge for its proof. -/
structure Combined where
  mask : Element
  challenge : Exponent
deriving DecidableEq

namespace Panel

/-- The contributions for the ciphertext at a position, in the order of the responders. -/
def column (p : Panel) (position : Nat) : List PartialDecryption :=
  p.responders.filterMap fun r => r.answer.partials[position]?

/-- Combines the contributions for one ciphertext. -/
def combineAt (p : Panel) (context : ElectionContext) (text : Cipher) (position : Nat) :
    Combined :=
  let column := p.column position
  let mask := Element.prod ((column.zip p.weights).map fun (c, w) => c.mi ^ w.coefficient)
  let a := Element.prod (column.map (·.a))
  let b := Element.prod (column.map (·.b))
  ⟨mask, text.collectiveChallenge context.extendedBaseHash context.jointPublicKey a b mask⟩

def combine (p : Panel) (context : ElectionContext) (texts : List Cipher) : List Combined :=
  texts.zipIdx.map fun (text, i) => p.combineAt context text i

/-- The challenges for every responder, weighted. -/
def challenges (p : Panel) (combined : List Combined) : List (List Exponent) :=
  p.weights.map fun w => combined.map fun c => c.challenge * w.coefficient

end Panel

def closingFaults (n : Nat) (r : Responder) : Reply ChallengeResponses → List Fault
  | .silent => [.noAnswer]
  | .crashed => [.challengeFailed (crashError r.trustee)]
  | .refused e => [.challengeFailed e]
  | .answered a =>
    problemUnless (a.batchId = r.answer.batchId) (.wrongBatch a.batchId r.answer.batchId) ++
      problemUnless (a.responses.length = n) (.responseCount a.responses.length n)

def responses? : Reply ChallengeResponses → Option (List Exponent)
  | .answered a => some a.responses
  | _ => none

/-- The responses of all responders, or why some are missing. -/
def collect (p : Panel) (n : Nat) (replies : List (Reply ChallengeResponses)) :
    Except (List Problem) (List (List Exponent)) :=
  let problems := (p.responders.zip replies).flatMap fun (r, reply) =>
    (closingFaults n r reply).map (.trustee r.trustee.id)
  unlessProblems problems (replies.filterMap responses?)

/-- The unflagged positions at which a response does not fit the commitments. -/
def badPositions (flagged : Flags) (texts : List Cipher) (shareKey : Element)
    (partials : List PartialDecryption) (challenges responses : List Exponent) : List Nat :=
  (texts.zip (partials.zip (challenges.zip responses))).zipIdx.filterMap
    fun ((text, c, challenge, response), i) =>
      let proof : ChaumPedersenProof := ⟨challenge, response⟩
      if flagged.contains i || proof.accepts shareKey text.pad c.mi c.a c.b then none else some i

/-- The faults that show when a responder is checked on its own. -/
def individualFaults (roster : Roster) (flagged : Flags) (texts : List Cipher) (r : Responder)
    (challenges responses : List Exponent) : List Fault :=
  match roster.shareKey? r.trustee.id with
  | none => [.noCommitments]
  | some shareKey =>
    (badPositions flagged texts shareKey r.answer.partials challenges responses).map .badResponse

def individualProblems (roster : Roster) (p : Panel) (texts : List Cipher)
    (challenges responses : List (List Exponent)) : List Problem :=
  (p.responders.zip (challenges.zip responses)).flatMap fun (r, cs, vs) =>
    (individualFaults roster p.flagged texts r cs vs).map (.trustee r.trustee.id)

/-- The exponentiations that checking each responder takes. -/
def individualCost (roster : Roster) (p : Panel) (n : Nat) : Nat :=
  (p.responders.filter fun r => (roster.shareKey? r.trustee.id).isSome).length * (4 * n)

def item (p : Panel) (responses : List (List Exponent)) (combined : Combined) (position : Nat) :
    Option Decryption :=
  if p.flagged.contains position then none
  else some
    { beta := combined.mask
      proof := ⟨combined.challenge, Exponent.sum (responses.filterMap (·[position]?))⟩ }

/-- The record of a session in which all answers are in. -/
def publish (p : Panel) (combined : List Combined) (responses : List (List Exponent)) :
    Decryptions where
  items := combined.zipIdx.map fun (c, i) => item p responses c i
  flagged := p.flagged
  guardianIds := p.responders.map (·.trustee.id)

/-- Ends a session with the replies of round two. -/
def conclude (d : Decryptor) (p : Panel) (texts : List Cipher) (combined : List Combined)
    (replies : List (Reply ChallengeResponses)) : Except (List Problem) Decryptions :=
  match collect p texts.length replies with
  | .error problems => .error problems
  | .ok responses =>
    let problems :=
      if d.config.checkIndividualResponses then
        individualProblems d.roster p texts (p.challenges combined) responses
      else []
    unlessProblems problems (publish p combined responses)

/-- The exponentiations spent after round two. -/
def conclusionCost (d : Decryptor) (p : Panel) (texts : List Cipher)
    (replies : List (Reply ChallengeResponses)) : Nat :=
  match collect p texts.length replies with
  | .error _ => 0
  | .ok _ =>
    if d.config.checkIndividualResponses then individualCost d.roster p texts.length else 0

/-- How a decryptor reaches its trustees. -/
structure Transport (m : Type → Type) where
  decrypt : TrusteeProfile → List Element → m (Reply PartialDecryptions)
  challenge : TrusteeProfile → BatchId → List Exponent → m (Reply ChallengeResponses)

variable {m : Type → Type} [Monad m]

def askOpening (d : Decryptor) (transport : Transport m) (texts : List Cipher) :
    m (List (Reply PartialDecryptions)) :=
  d.trustees.mapM fun t => transport.decrypt t (texts.map Cipher.pad)

def askClosing (p : Panel) (transport : Transport m) (combined : List Combined) :
    m (List (Reply ChallengeResponses)) :=
  (p.responders.zip (p.challenges combined)).mapM fun (r, cs) =>
    transport.challenge r.trustee r.answer.batchId cs

/-- Runs a session over a batch and counts what it spends. An empty batch opens none. -/
def run (d : Decryptor) (transport : Transport m) (metrics : Metrics) (texts : List Cipher) :
    m (Except (List Problem) Decryptions × Metrics) := do
  if texts.isEmpty then return (.ok {}, metrics)
  let opening ← askOpening d transport texts
  let metrics := metrics.addSession.addTrusteeCalls (UInt64.ofNat d.trustees.length)
  match assemble d texts.length opening with
  | .error problems => return (.error problems, metrics)
  | .ok p =>
    let combined := p.combine d.context texts
    let closing ← askClosing p transport combined
    let cost := texts.length * p.responders.length + conclusionCost d p texts closing
    let metrics := (metrics.addTrusteeCalls (UInt64.ofNat p.responders.length)).addExponentiations
      (UInt64.ofNat cost)
    return (conclude d p texts combined closing, metrics)

end Session

end ThresholdElGamal
