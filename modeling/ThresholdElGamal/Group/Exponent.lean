import ThresholdElGamal.Bytes.BigEndian
import ThresholdElGamal.Group.Modular

/-! # Exponents

An exponent holds the number it was given, reduced or not; sums, products and quotients are
reduced modulo `q`.
-/

namespace ThresholdElGamal

@[ext]
structure Exponent where
  val : Nat
deriving DecidableEq, Repr

namespace Exponent

def zero : Exponent := ⟨0⟩

def one : Exponent := ⟨1⟩

def ofNat (n : Nat) : Exponent := ⟨n % order⟩

def ofReduced? (n : Nat) : Option Exponent := if n < order then some ⟨n⟩ else none

def ofBytes (bytes : Bytes) : Exponent := ofNat bytes.toNat

instance : Add Exponent := ⟨fun a b => ⟨(a.val + b.val) % order⟩⟩

instance : Mul Exponent := ⟨fun a b => ⟨a.val * b.val % order⟩⟩

/-- The reduced difference, for a subtrahend that is at most the minuend plus `q`. -/
instance : Sub Exponent := ⟨fun a b => ⟨(a.val + order - b.val) % order⟩⟩

/-- The difference, unless the subtrahend exceeds the minuend by more than `q`. -/
def sub? (a b : Exponent) : Option Exponent :=
  if b.val ≤ a.val + order then some (a - b) else none

/-- Zero for zero, else `q` less the number, unless the number exceeds `q`. -/
def neg? (a : Exponent) : Option Exponent :=
  if a.val = 0 then some a else if a.val ≤ order then some ⟨order - a.val⟩ else none

/-- The power with exponent `q - 2`: the inverse of every exponent that has one. -/
def inverse (a : Exponent) : Exponent := ⟨powMod order a.val (order - 2)⟩

instance : Div Exponent := ⟨fun a b => a * b.inverse⟩

def bytes (a : Exponent) : Bytes := Bytes.ofNat width a.val

def sum (ws : List Exponent) : Exponent := ws.foldl (· + ·) zero

theorem add_def (a b : Exponent) : a + b = ⟨(a.val + b.val) % order⟩ := rfl

theorem mul_def (a b : Exponent) : a * b = ⟨a.val * b.val % order⟩ := rfl

theorem sub_def (a b : Exponent) : a - b = ⟨(a.val + order - b.val) % order⟩ := rfl

theorem div_def (a b : Exponent) : a / b = a * b.inverse := rfl

end Exponent

end ThresholdElGamal
