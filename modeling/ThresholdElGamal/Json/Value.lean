import ThresholdElGamal.Json.Number

/-! # JSON values

A value keeps what a reader of records may look at: integers apart from other numbers, object
members in order and with repetitions, and string literals that denote no text because an
escape in them names half of a surrogate pair.
-/

namespace ThresholdElGamal.Json

/-- Whether a character cannot stand for itself inside a string literal. -/
def needsEscape (c : Char) : Bool := c.toNat < 32 || c == '"' || c == '\\'

/-- The key of an object member: its text, and whether it is spelled with an escape. -/
structure Key where
  text : Option String
  escaped : Bool
deriving DecidableEq

def Key.ofText (s : String) : Key := ⟨some s, s.toList.any needsEscape⟩

inductive Value where
  | null
  | bool (b : Bool)
  /-- An integer literal other than minus zero. -/
  | integer (n : Int)
  /-- Any other number, `mantissa * 10 ^ exponent`. -/
  | decimal (mantissa exponent : Int)
  | string (text : Option String)
  | array (items : List Value)
  | object (members : List (Key × Value))

namespace Value

def text (s : String) : Value := .string (some s)

def nat (n : Nat) : Value := .integer n

def record (members : List (String × Value)) : Value :=
  .object (members.map fun m => (Key.ofText m.1, m.2))

def membersAt (name : String) (members : List (Key × Value)) : List Value :=
  members.filterMap fun m => if m.1.text = some name then some m.2 else none

mutual

/-- Whether a value can be held for later use: every number is read as a finite double, every
string denotes a text, and arrays and objects are nested no deeper than the given depth. -/
def isStorable : Nat → Value → Bool
  | _, .null => true
  | _, .bool _ => true
  | _, .integer n => isFinite n.natAbs 0
  | _, .decimal m e => isFinite m.natAbs e
  | _, .string t => t.isSome
  | 0, .array _ => false
  | depth + 1, .array items => areStorable depth items
  | 0, .object _ => false
  | depth + 1, .object members => membersStorable depth members

def areStorable : Nat → List Value → Bool
  | _, [] => true
  | depth, v :: vs => isStorable depth v && areStorable depth vs

def membersStorable : Nat → List (Key × Value) → Bool
  | _, [] => true
  | depth, (k, v) :: ms => k.text.isSome && isStorable depth v && membersStorable depth ms

end

end Value

end ThresholdElGamal.Json
