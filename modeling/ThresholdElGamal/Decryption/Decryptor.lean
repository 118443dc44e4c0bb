import ThresholdElGamal.Ciphertext.DiscreteLog
import ThresholdElGamal.Decryption.Cipher
import ThresholdElGamal.Decryption.Config
import ThresholdElGamal.Group.Interpolation
import ThresholdElGamal.Trustee.KeyHolder

/-! # Decryptors

A decryptor works with a fixed list of trustees that fits the roster and the context of an
election.
-/

namespace ThresholdElGamal

namespace Decryptor

inductive Mismatch where
  | repeated
  | unknownId
  | publicKey
  | coordinate (actual expected : UInt32)
deriving DecidableEq

def Mismatch.message : Mismatch → String
  | repeated => "appears more than once"
  | unknownId => "unknown guardian id"
  | publicKey => "public key does not match the guardian's published key"
  | coordinate actual expected =>
    s!"x coordinate {actual} does not match the guardian's {expected}"

/-- How context, roster and trustees can fail to fit together. -/
inductive Problem where
  | guardianCount (context : UInt32) (roster : Nat)
  | jointKey
  | tooFewTrustees (available : Nat) (quorum : UInt32)
  | trustee (id : String) (mismatch : Mismatch)
deriving DecidableEq

def Problem.message : Problem → String
  | guardianCount n m => s!"the election has {n} guardians but the roster lists {m}"
  | jointKey => "the joint public key does not match the guardian roster"
  | tooFewTrustees t k => s!"{t} trustees available but the quorum is {k}"
  | trustee id mismatch => within s!"trustee {id}" mismatch.message

/-- The mismatches of a trustee behind the ones listed earlier. -/
def mismatches (roster : Roster) (earlier : List TrusteeProfile) (t : TrusteeProfile) :
    List Mismatch :=
  problemUnless (earlier.all (·.id != t.id)) .repeated ++
    match roster.get? t.id with
    | none => [.unknownId]
    | some g =>
      problemUnless (g.publicKey? = some t.publicKey) .publicKey ++
        problemUnless (g.xCoordinate = t.xCoordinate) (.coordinate t.xCoordinate g.xCoordinate)

def trusteeProblems (roster : Roster) (earlier : List TrusteeProfile) :
    List TrusteeProfile → List Problem
  | [] => []
  | t :: ts =>
    (mismatches roster earlier t).map (.trustee t.id) ++
      trusteeProblems roster (earlier ++ [t]) ts

def problems (context : ElectionContext) (roster : Roster) (trustees : List TrusteeProfile) :
    List Problem :=
  problemUnless (context.numberOfGuardians.toNat = roster.size)
      (.guardianCount context.numberOfGuardians roster.size) ++
    problemUnless (context.jointPublicKey = roster.jointPublicKey) .jointKey ++
    problemUnless (context.quorum.toNat ≤ trustees.length)
      (.tooFewTrustees trustees.length context.quorum) ++
    trusteeProblems roster [] trustees

end Decryptor

structure Decryptor where
  context : ElectionContext
  roster : Roster
  trustees : List TrusteeProfile
  config : DecryptionConfig
  accepted : Decryptor.problems context roster trustees = []

namespace Decryptor

/-- The decryptor, or everything that does not fit. -/
def new (context : ElectionContext) (roster : Roster) (trustees : List TrusteeProfile)
    (config : DecryptionConfig) : Except (List Problem) Decryptor :=
  if h : problems context roster trustees = [] then
    .ok { context, roster, trustees, config, accepted := h }
  else .error (problems context roster trustees)

/-- The weights of trustees within the session that they form. -/
def weightsOf (trustees : List TrusteeProfile) : List LagrangeCoordinate :=
  lagrangeCoordinates (trustees.map fun t => (t.id, t.xCoordinate))

def fullWeights (d : Decryptor) : List LagrangeCoordinate := weightsOf d.trustees

def startLog (d : Decryptor) : DiscreteLog :=
  .start d.context.jointPublicKey d.config.maxDlog.toNat

def recover (log : DiscreteLog) (ciphertext : Ciphertext) (beta : Element) :
    Option UInt32 × DiscreteLog :=
  let (count, log) := log.find (ciphertext.unmask beta)
  (count.map UInt32.ofNat, log)

end Decryptor

end ThresholdElGamal
