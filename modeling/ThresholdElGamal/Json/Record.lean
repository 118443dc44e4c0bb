import ThresholdElGamal.Json.Value

/-! # Records in JSON

A record is an object, whose unknown keys are passed over and whose known keys appear at most
once, or an array of the fields in their order.
-/

namespace ThresholdElGamal.Json

/-- What a record holds for a field. -/
inductive Slot where
  | given (v : Value)
  /-- The object has no such key. -/
  | missing
  /-- The array ends before the field. -/
  | cut

namespace Slot

variable {α : Type}

def required (read : Value → Option α) : Slot → Option α
  | given v => read v
  | _ => none

def orDefault (default : α) (read : Value → Option α) : Slot → Option α
  | given v => read v
  | _ => some default

/-- A field that may be left out of an object, but not of an array. -/
def orAbsent (absent : α) (read : Value → Option α) : Slot → Option α
  | given v => read v
  | missing => some absent
  | cut => none

end Slot

namespace Value

/-- The slot of a key; a repeated key is refused. -/
def slotOf (members : List (Key × Value)) (name : String) : Option Slot :=
  match membersAt name members with
  | [] => some .missing
  | [v] => some (.given v)
  | _ => none

def slots? (names : List String) : Value → Option (List Slot)
  | .object members =>
    if members.all (·.1.text.isSome) then names.mapM (slotOf members) else none
  | .array items =>
    if items.length ≤ names.length then
      some (items.map .given ++ List.replicate (names.length - items.length) .cut)
    else none
  | _ => none

end Value

end ThresholdElGamal.Json
