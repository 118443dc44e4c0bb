/-! # Finite numbers

A number that is held for later use is held as a double, and the double is found step by step:
digits are cut until the rest fits 64 bits, the rest and the power of ten are each rounded to a
double, and so is their product. Close to the largest double this need not be the double nearest
to the literal. A literal is refused when the last step overflows.
-/

namespace ThresholdElGamal.Json

/-- Cuts digits from the end of `n * 10 ^ exponent` until `n` fits 64 bits. -/
def cutDigits (n : Nat) (exponent : Int) : Nat × Int :=
  if h : n < UInt64.size then (n, exponent) else cutDigits (n / 10) (exponent + 1)
termination_by n
decreasing_by exact Nat.div_lt_self (Nat.zero_lt_of_lt (Nat.le_of_not_lt h)) (by decide)

/-- The nearest number with at most 53 significant bits; of two nearest, the one whose last
significant bit is zero. -/
def roundToDouble (n : Nat) : Nat :=
  let unit := 1 <<< (n.log2 - 52)
  let whole := n / unit
  let part := 2 * (n % unit)
  if part < unit || part = unit && whole % 2 = 0 then whole * unit else (whole + 1) * unit

def largestExponent : Nat := 308

/-- The least number that is rounded to infinity, midway between the largest double and the
next power of two. -/
def overflowBound : Nat := (1 <<< 1024) - (1 <<< 970)

/-- Whether `n * 10 ^ exponent` is read as a finite double. A negative power divides, and never
overflows. -/
def isFinite (n : Nat) (exponent : Int) : Bool :=
  match cutDigits n exponent with
  | (0, _) => true
  | (_, .negSucc _) => true
  | (n, .ofNat e) =>
    e ≤ largestExponent && roundToDouble n * roundToDouble (Nat.pow 10 e) < overflowBound

end ThresholdElGamal.Json
