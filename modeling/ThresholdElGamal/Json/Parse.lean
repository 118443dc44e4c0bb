import ThresholdElGamal.Bytes.Hex
import ThresholdElGamal.Json.Value

/-! # Reading JSON

The reader accepts every text of the grammar, whatever the depth of its nesting, the size of
its numbers and the pairing of its surrogate escapes; what a value has to satisfy beyond that
is left to the reader of the record.
-/

namespace ThresholdElGamal.Json

def isSpace (c : Char) : Bool := c == ' ' || c == '\t' || c == '\n' || c == '\r'

def skipSpace (cs : List Char) : List Char := cs.dropWhile isSpace

def ofDigits (ds : List Char) : Nat := ds.foldl (fun n d => n * 10 + (d.toNat - 48)) 0

/-- The digits in front of a text, at least one, and what follows them. -/
def digits? (cs : List Char) : Option (List Char × List Char) :=
  match cs.takeWhile Char.isDigit with
  | [] => none
  | ds => some (ds, cs.dropWhile Char.isDigit)

/-- The digits of an integer part: a zero stands alone. -/
def integerPart? : List Char → Option (List Char × List Char)
  | '0' :: cs => some (['0'], cs)
  | cs => digits? cs

def fraction? : List Char → Option (List Char × List Char)
  | '.' :: cs => digits? cs
  | cs => some ([], cs)

def exponent? : List Char → Option (Option Int × List Char)
  | c :: cs =>
    if c = 'e' || c = 'E' then
      match cs with
      | '-' :: cs => (digits? cs).map fun (ds, cs) => (some (-ofDigits ds), cs)
      | '+' :: cs => (digits? cs).map fun (ds, cs) => (some ↑(ofDigits ds), cs)
      | cs => (digits? cs).map fun (ds, cs) => (some ↑(ofDigits ds), cs)
    else some (none, c :: cs)
  | [] => some (none, [])

/-- The number without sign in front of a text; `sign` is applied to it. -/
def unsigned? (sign : Int) (cs : List Char) : Option (Value × List Char) := do
  let (whole, cs) ← integerPart? cs
  let (part, cs) ← fraction? cs
  let (exponent, cs) ← exponent? cs
  let mantissa := ofDigits (whole ++ part)
  if part.isEmpty && exponent.isNone && !(sign == -1 && mantissa == 0) then
    return (.integer (sign * mantissa), cs)
  return (.decimal (sign * mantissa) (exponent.getD 0 - part.length), cs)

def number? : List Char → Option (Value × List Char)
  | '-' :: cs => unsigned? (-1) cs
  | cs => unsigned? 1 cs

/-- A piece of a string literal: a character that stands for itself, or an escaped code unit. -/
inductive Piece where
  | plain (c : Char)
  | unit (n : Nat)

def shortEscape? : Char → Option Nat
  | '"' => some 34
  | '\\' => some 92
  | '/' => some 47
  | 'b' => some 8
  | 'f' => some 12
  | 'n' => some 10
  | 'r' => some 13
  | 't' => some 9
  | _ => none

def codeUnit? (a b c d : Char) : Option Nat := do
  let a ← Hex.value? a
  let b ← Hex.value? b
  let c ← Hex.value? c
  let d ← Hex.value? d
  return ((a * 16 + b) * 16 + c) * 16 + d

/-- The pieces of a literal up to its closing quote, and what follows the quote. -/
def pieces? : List Char → Option (List Piece × List Char)
  | '"' :: cs => some ([], cs)
  | '\\' :: 'u' :: a :: b :: c :: d :: cs => do
    let n ← codeUnit? a b c d
    let (ps, cs) ← pieces? cs
    return (.unit n :: ps, cs)
  | '\\' :: e :: cs => do
    let n ← shortEscape? e
    let (ps, cs) ← pieces? cs
    return (.unit n :: ps, cs)
  | c :: cs =>
    if c.toNat < 32 || c == '\\' then none
    else do
      let (ps, cs) ← pieces? cs
      return (.plain c :: ps, cs)
  | [] => none

/-- The text of a list of pieces, unless a surrogate lacks its partner. -/
def join? : List Piece → Option (List Char)
  | [] => some []
  | .plain c :: ps => (join? ps).map (c :: ·)
  | .unit n :: ps =>
    if 0xD800 ≤ n ∧ n < 0xDC00 then
      match ps with
      | .unit m :: ps =>
        if 0xDC00 ≤ m ∧ m < 0xE000 then
          (join? ps).map (Char.ofNat (0x10000 + (n - 0xD800) * 0x400 + (m - 0xDC00)) :: ·)
        else none
      | _ => none
    else if 0xDC00 ≤ n ∧ n < 0xE000 then none
    else (join? ps).map (Char.ofNat n :: ·)

def Piece.isEscape : Piece → Bool
  | .plain _ => false
  | .unit _ => true

/-- The literal behind an opening quote, as a key. -/
def literal? (cs : List Char) : Option (Key × List Char) :=
  (pieces? cs).map fun (ps, cs) => (⟨(join? ps).map String.ofList, ps.any Piece.isEscape⟩, cs)

def key? (cs : List Char) : Option (Key × List Char) :=
  match skipSpace cs with
  | '"' :: cs => do
    let (k, cs) ← literal? cs
    match skipSpace cs with
    | ':' :: cs => return (k, cs)
    | _ => none
  | _ => none

mutual

/-- The value in front of a text; the fuel bounds the number of nested readings. -/
def value? : Nat → List Char → Option (Value × List Char)
  | 0, _ => none
  | fuel + 1, cs =>
    match skipSpace cs with
    | 'n' :: 'u' :: 'l' :: 'l' :: cs => some (.null, cs)
    | 't' :: 'r' :: 'u' :: 'e' :: cs => some (.bool true, cs)
    | 'f' :: 'a' :: 'l' :: 's' :: 'e' :: cs => some (.bool false, cs)
    | '"' :: cs => (literal? cs).map fun (k, cs) => (.string k.text, cs)
    | '[' :: cs =>
      match skipSpace cs with
      | ']' :: cs => some (.array [], cs)
      | cs => do
        let (v, cs) ← value? fuel cs
        let (vs, cs) ← items? fuel cs
        return (.array (v :: vs), cs)
    | '\x7b' :: cs =>
      match skipSpace cs with
      | '\x7d' :: cs => some (.object [], cs)
      | cs => do
        let (k, cs) ← key? cs
        let (v, cs) ← value? fuel cs
        let (ms, cs) ← members? fuel cs
        return (.object ((k, v) :: ms), cs)
    | cs => number? cs

def items? : Nat → List Char → Option (List Value × List Char)
  | 0, _ => none
  | fuel + 1, cs =>
    match skipSpace cs with
    | ']' :: cs => some ([], cs)
    | ',' :: cs => do
      let (v, cs) ← value? fuel cs
      let (vs, cs) ← items? fuel cs
      return (v :: vs, cs)
    | _ => none

def members? : Nat → List Char → Option (List (Key × Value) × List Char)
  | 0, _ => none
  | fuel + 1, cs =>
    match skipSpace cs with
    | '\x7d' :: cs => some ([], cs)
    | ',' :: cs => do
      let (k, cs) ← key? cs
      let (v, cs) ← value? fuel cs
      let (ms, cs) ← members? fuel cs
      return ((k, v) :: ms, cs)
    | _ => none

end

/-- The value that a whole text denotes, with spaces around it. -/
def parse? (s : String) : Option Value :=
  let cs := s.toList
  match value? (cs.length + 1) cs with
  | some (v, rest) => if (skipSpace rest).isEmpty then some v else none
  | none => none

end ThresholdElGamal.Json
