import ThresholdElGamal.Json.Print

/-! # Printing JSON for readers

Every item and every member stands on a line of its own, indented by two spaces for each level;
the separator of a key is followed by a space.
-/

namespace ThresholdElGamal.Json

def lineAt (level : Nat) : List Char := '\n' :: List.replicate (2 * level) ' '

namespace Value

mutual

def printAt (level : Nat) : Value → List Char
  | .array (v :: vs) => '[' :: lineAt (level + 1) ++ printAt (level + 1) v ++ printItemsAt level vs
  | .object ((k, v) :: ms) =>
    '\x7b' :: lineAt (level + 1) ++ printLiteral k.text ++ ':' :: ' ' :: printAt (level + 1) v ++
      printMembersAt level ms
  | v => v.print

/-- The items after the first and the closing bracket. -/
def printItemsAt (level : Nat) : List Value → List Char
  | [] => lineAt level ++ [']']
  | v :: vs => ',' :: lineAt (level + 1) ++ printAt (level + 1) v ++ printItemsAt level vs

/-- The members after the first and the closing brace. -/
def printMembersAt (level : Nat) : List (Key × Value) → List Char
  | [] => lineAt level ++ ['\x7d']
  | (k, v) :: ms =>
    ',' :: lineAt (level + 1) ++ printLiteral k.text ++ ':' :: ' ' :: printAt (level + 1) v ++
      printMembersAt level ms

end

def toLines (v : Value) : String := String.ofList (v.printAt 0)

end Value

end ThresholdElGamal.Json
