import Std.Data.HashMap
import ThresholdElGamal.Group.Element

/-! # Bounded discrete logarithms

Powers of a base are computed one after the other and remembered, so that many searches up to a
bound cost that many multiplications together.
-/

namespace ThresholdElGamal

structure DiscreteLog where
  base : Element
  bound : Nat
  /-- The least exponent of every power computed so far. -/
  exponents : Std.HashMap Element Nat
  /-- The power with the largest exponent so far. -/
  last : Element
  exponent : Nat

namespace DiscreteLog

def start (base : Element) (bound : Nat) : DiscreteLog where
  base
  bound
  exponents := (∅ : Std.HashMap Element Nat).insert .one 0
  last := .one
  exponent := 0

/-- Computes one more power; a power seen before keeps its exponent. -/
def extend (t : DiscreteLog) : DiscreteLog :=
  let next := t.last * t.base
  { t with
    exponents := t.exponents.insertIfNew next (t.exponent + 1)
    last := next
    exponent := t.exponent + 1 }

/-- Extends the table until the value turns up, at most the given number of times. -/
def search (value : Element) : Nat → DiscreteLog → Option Nat × DiscreteLog
  | 0, t => (none, t)
  | steps + 1, t =>
    let t := t.extend
    if t.last = value then (some t.exponent, t) else search value steps t

/-- The exponent of a value up to the bound, and the table after the search. -/
def find (t : DiscreteLog) (value : Element) : Option Nat × DiscreteLog :=
  match t.exponents[value]? with
  | some e => (some e, t)
  | none => search value (t.bound - t.exponent) t

end DiscreteLog

end ThresholdElGamal
