import ThresholdElGamal.Bytes.BigEndian
import ThresholdElGamal.Group.Exponent

/-! # Group elements

An element holds the number it was given, reduced or not; every operation reduces its result
modulo `p`. The elements that are valid residues form the subgroup of order `q`.
-/

namespace ThresholdElGamal

@[ext]
structure Element where
  val : Nat
deriving DecidableEq, Hashable, Repr

namespace Element

def one : Element := ⟨1⟩

/-- The generator of the subgroup of order `q`. -/
def generator : Element := ⟨4⟩

def ofNat (n : Nat) : Element := ⟨n % modulus⟩

/-- Takes a number that already is a nonzero residue. -/
def ofResidue? (n : Nat) : Option Element :=
  if 0 < n ∧ n < modulus then some ⟨n⟩ else none

def powNat (a : Element) (n : Nat) : Element := ⟨powMod modulus a.val n⟩

instance : Mul Element := ⟨fun a b => ⟨a.val * b.val % modulus⟩⟩

instance : HPow Element Exponent Element := ⟨fun a w => a.powNat w.val⟩

/-- The power with exponent `p - 2`: the inverse of every element that has one. -/
def inverse (a : Element) : Element := a.powNat (modulus - 2)

instance : Div Element := ⟨fun a b => a * b.inverse⟩

/-- Membership in the subgroup of order `q`, for a reduced number. -/
def isResidue (a : Element) : Bool :=
  a.val != 0 && a.val < modulus && powMod modulus a.val order == 1

def bytes (a : Element) : Bytes := Bytes.ofNat width a.val

def prod (as : List Element) : Element := as.foldl (· * ·) one

theorem mul_def (a b : Element) : a * b = ⟨a.val * b.val % modulus⟩ := rfl

theorem div_def (a b : Element) : a / b = a * b.inverse := rfl

end Element

def genPow (w : Exponent) : Element := Element.generator ^ w

end ThresholdElGamal
