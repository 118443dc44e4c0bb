import ThresholdElGamal.Group.Exponent

/-! # Interpolation at zero

The Lagrange weight of a coordinate within a set: the value at zero of the basis polynomial
that is one at the coordinate and zero at the others.
-/

namespace ThresholdElGamal

def Exponent.prod (ws : List Exponent) : Exponent := ws.foldl (· * ·) one

/-- The weight of a coordinate; coordinates equal to it are passed over. -/
def lagrangeWeight (x : UInt32) (present : List UInt32) : Exponent :=
  let c := Exponent.ofNat x.toNat
  let others := (present.filter (· != x)).map fun j => Exponent.ofNat j.toNat
  Exponent.prod others / Exponent.prod (others.map (· - c))

/-- The weight of a guardian in one session. -/
@[ext]
structure LagrangeCoordinate where
  guardianId : String
  xCoordinate : UInt32
  coefficient : Exponent
deriving DecidableEq

def lagrangeCoordinates (present : List (String × UInt32)) : List LagrangeCoordinate :=
  present.map fun (id, x) => ⟨id, x, lagrangeWeight x (present.map (·.2))⟩

end ThresholdElGamal
