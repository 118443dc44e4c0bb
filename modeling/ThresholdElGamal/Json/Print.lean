import ThresholdElGamal.Bytes.Hex
import ThresholdElGamal.Json.Value

/-! # Printing JSON

Values are printed without spaces. Only quotes, backslashes and control characters are
escaped; control characters without a short escape are written with four lower-case digits.
-/

namespace ThresholdElGamal.Json

def pushNat (n : Nat) (rest : List Char) : List Char :=
  let digit := Char.ofNat (48 + n % 10)
  if n < 10 then digit :: rest else pushNat (n / 10) (digit :: rest)

def printNat (n : Nat) : List Char := pushNat n []

def printInt : Int → List Char
  | .ofNat n => printNat n
  | .negSucc n => '-' :: printNat (n + 1)

def printChar (c : Char) : List Char :=
  if c = '"' then ['\\', '"']
  else if c = '\\' then ['\\', '\\']
  else if c.toNat = 8 then ['\\', 'b']
  else if c.toNat = 9 then ['\\', 't']
  else if c.toNat = 10 then ['\\', 'n']
  else if c.toNat = 12 then ['\\', 'f']
  else if c.toNat = 13 then ['\\', 'r']
  else if c.toNat < 32 then
    ['\\', 'u', '0', '0', (Hex.digit (c.toNat / 16)).toLower, (Hex.digit (c.toNat % 16)).toLower]
  else [c]

def printText (s : String) : List Char := '"' :: s.toList.flatMap printChar ++ ['"']

/-- A literal; one that denotes no text is printed as half of a surrogate pair. -/
def printLiteral : Option String → List Char
  | some s => printText s
  | none => ['"', '\\', 'u', 'd', '8', '0', '0', '"']

namespace Value

mutual

def print : Value → List Char
  | .null => ['n', 'u', 'l', 'l']
  | .bool true => ['t', 'r', 'u', 'e']
  | .bool false => ['f', 'a', 'l', 's', 'e']
  | .integer n => printInt n
  | .decimal m e => printInt m ++ 'e' :: printInt e
  | .string t => printLiteral t
  | .array [] => ['[', ']']
  | .array (v :: vs) => '[' :: print v ++ printItems vs
  | .object [] => ['\x7b', '\x7d']
  | .object ((k, v) :: ms) =>
    '\x7b' :: printLiteral k.text ++ ':' :: print v ++ printMembers ms

/-- The items after the first, each behind a comma, and the closing bracket. -/
def printItems : List Value → List Char
  | [] => [']']
  | v :: vs => ',' :: print v ++ printItems vs

/-- The members after the first, each behind a comma, and the closing brace. -/
def printMembers : List (Key × Value) → List Char
  | [] => ['\x7d']
  | (k, v) :: ms => ',' :: printLiteral k.text ++ ':' :: print v ++ printMembers ms

end

def toText (v : Value) : String := String.ofList v.print

end Value

end ThresholdElGamal.Json
