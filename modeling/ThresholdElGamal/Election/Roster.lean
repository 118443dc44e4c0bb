import ThresholdElGamal.Election.Guardian
import ThresholdElGamal.Record.Metrics

/-! # The guardian roster

A roster lists guardians with distinct names, distinct positive coordinates and at least one
commitment each. For every guardian it keeps the joint polynomial at the guardian's coordinate,
in the exponent: the public key that belongs to the guardian's key share.
-/

namespace ThresholdElGamal

namespace Roster

inductive Defect where
  | notPositive
  | coordinateTaken (x : UInt32)
  | noCommitments
deriving DecidableEq

def Defect.message : Defect → String
  | notPositive => "x coordinate must be positive"
  | coordinateTaken x => s!"x coordinate {x} is already taken"
  | noCommitments => "no coefficient commitments"

inductive Problem where
  | noGuardians
  | duplicateId (id : String)
  | guardian (id : String) (defect : Defect)
deriving DecidableEq

def Problem.message : Problem → String
  | noGuardians => "no guardians"
  | duplicateId id => s!"duplicate guardian id {id}"
  | guardian id defect => within s!"guardian {id}" defect.message

def problemsOf (earlier : List Guardian) (g : Guardian) : List Problem :=
  problemUnless (earlier.all (·.id != g.id)) (.duplicateId g.id) ++
    problemUnless (0 < g.xCoordinate) (.guardian g.id .notPositive) ++
    problemUnless (earlier.all (·.xCoordinate != g.xCoordinate))
      (.guardian g.id (.coordinateTaken g.xCoordinate)) ++
    problemUnless (!g.commitments.isEmpty) (.guardian g.id .noCommitments)

def problemsFrom (earlier : List Guardian) : List Guardian → List Problem
  | [] => []
  | g :: gs => problemsOf earlier g ++ problemsFrom (earlier ++ [g]) gs

def problems (guardians : List Guardian) : List Problem :=
  problemUnless (!guardians.isEmpty) .noGuardians ++ problemsFrom [] guardians

/-- The joint polynomial of the guardians at `x`, in the exponent. -/
def jointValue (guardians : List Guardian) (x : UInt32) : Element :=
  Element.prod (guardians.map (·.evaluate x))

end Roster

structure Roster where
  guardians : List Guardian
  accepted : Roster.problems guardians = []
  /-- The joint polynomial at every guardian's coordinate, in the exponent. -/
  shareKeys : List Element := guardians.map fun g => Roster.jointValue guardians g.xCoordinate
  shareKeys_eq : shareKeys = guardians.map fun g => Roster.jointValue guardians g.xCoordinate :=
    by rfl

namespace Roster

/-- The roster of the guardians, or everything that is wrong with them. -/
def ofGuardians (guardians : List Guardian) : Except (List Problem) Roster :=
  if h : problems guardians = [] then .ok { guardians, accepted := h }
  else .error (problems guardians)

def size (r : Roster) : Nat := r.guardians.length

def position? (r : Roster) (id : String) : Option Nat :=
  r.guardians.findIdx? (·.id == id)

def get? (r : Roster) (id : String) : Option Guardian :=
  r.guardians.find? (·.id == id)

def shareKey? (r : Roster) (id : String) : Option Element :=
  (r.position? id).bind fun i => r.shareKeys[i]?

def cached? (r : Roster) (x : UInt32) : Option Element :=
  (r.guardians.findIdx? (·.xCoordinate == x)).bind fun i => r.shareKeys[i]?

/-- The joint polynomial at any coordinate, in the exponent: kept for the coordinates on the
roster, computed for all others. -/
def shareKeyAt (r : Roster) (x : UInt32) : Element :=
  (r.cached? x).getD (jointValue r.guardians x)

def jointPublicKey (r : Roster) : Element :=
  Element.prod (r.guardians.filterMap (·.publicKey?))

/-- The exponentiations that one evaluation of the joint polynomial takes. -/
def evaluationCost (r : Roster) : Nat := (r.guardians.flatMap (·.commitments)).length

def initialMetrics (r : Roster) : Metrics :=
  ({} : Metrics).addExponentiations (UInt64.ofNat (r.size * r.evaluationCost))

/-- The joint polynomial at a coordinate, counting the exponentiations of a computed value. -/
def countedShareKeyAt (r : Roster) (x : UInt32) (m : Metrics) : Element × Metrics :=
  (r.shareKeyAt x,
    if (r.cached? x).isSome then m else m.addExponentiations (UInt64.ofNat r.evaluationCost))

end Roster

end ThresholdElGamal
