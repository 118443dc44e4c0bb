import ThresholdElGamal.Json.Parse

/-! # Places inside a JSON value

A pointer names a place by the keys and indices that lead to it, each behind a slash; the empty
pointer names the whole value.
-/

namespace ThresholdElGamal.Json

namespace Pointer

def steps? (s : String) : Option (List String) :=
  match s.splitOn "/" with
  | "" :: steps => some steps
  | _ => none

/-- The index that a step names in an array: decimal digits without leading zero. -/
def index? (step : String) : Option Nat :=
  match integerPart? step.toList with
  | some (ds, []) => some (ofDigits ds)
  | _ => none

end Pointer

namespace Value

open Pointer

def member? (v : Value) (name : String) : Option Value :=
  match v with
  | .object members => (membersAt name members).head?
  | _ => none

/-- Puts a value in the place of the first member with a key, or behind the other members. -/
def setMember (name : String) (new : Value) : List (Key × Value) → List (Key × Value)
  | [] => [(.ofText name, new)]
  | (k, v) :: rest =>
    if k.text = some name then (k, new) :: rest else (k, v) :: setMember name new rest

def child? (v : Value) (step : String) : Option Value :=
  match v with
  | .array items => (index? step).bind (items[·]?)
  | v => v.member? step

/-- Puts a value one step away; an array grows by one at most. -/
def setChild? (v : Value) (step : String) (new : Value) : Option Value :=
  match v with
  | .object members => some (.object (setMember step new members))
  | .array items =>
    match index? step with
    | some i =>
      if i < items.length then some (.array (items.set i new))
      else if i = items.length then some (.array (items ++ [new]))
      else none
    | none => none
  | _ => none

/-- Removes the value one step away; a key that is not there is no error. -/
def removeChild? (v : Value) (step : String) : Option Value :=
  match v with
  | .object members => some (.object (members.filter (·.1.text != some step)))
  | .array items =>
    match index? step with
    | some i => if i < items.length then some (.array (items.eraseIdx i)) else none
    | none => none
  | _ => none

def at? (v : Value) : List String → Option Value
  | [] => some v
  | step :: steps => (v.child? step).bind (at? · steps)

def replace? (v : Value) (new : Value) : List String → Option Value
  | [] => some new
  | [step] => v.setChild? step new
  | step :: steps => do
    let child ← (← v.child? step).replace? new steps
    v.setChild? step child

/-- Removes the value at a place other than the whole. -/
def remove? (v : Value) : List String → Option Value
  | [] => none
  | [step] => v.removeChild? step
  | step :: steps => do
    let child ← (← v.child? step).remove? steps
    v.setChild? step child

end Value

end ThresholdElGamal.Json
