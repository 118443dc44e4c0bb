import ThresholdElGamal.Bytes.BigEndian

/-! # Hexadecimal text

Numbers and byte strings are written with upper-case digits and read in either case. A written
number has no leading zeros; a number may be read with a plus sign in front and with
underscores between its digits.
-/

namespace ThresholdElGamal.Hex

def digit (n : Nat) : Char :=
  if n < 10 then Char.ofNat (48 + n) else Char.ofNat (55 + n)

/-- The value of a digit of either case. -/
def value? (c : Char) : Option Nat :=
  let n := c.toNat
  if 48 ≤ n ∧ n ≤ 57 then some (n - 48)
  else if 65 ≤ n ∧ n ≤ 70 then some (n - 55)
  else if 97 ≤ n ∧ n ≤ 102 then some (n - 87)
  else none

/-- Puts the digits of a number in front of a text; zero has one digit. -/
def pushNat (n : Nat) (rest : List Char) : List Char :=
  if n < 16 then digit n :: rest else pushNat (n / 16) (digit (n % 16) :: rest)

def ofNat (n : Nat) : String := String.ofList (pushNat n [])

/-- Extends a number by the digits that follow; underscores count for nothing. -/
def readDigits (n : Nat) : List Char → Option Nat
  | [] => some n
  | c :: cs =>
    if c = '_' then readDigits n cs
    else match value? c with
      | some d => readDigits (n * 16 + d) cs
      | none => none

/-- The digits after the sign: at least one, and no underscore in front. -/
def readUnsigned : List Char → Option Nat
  | [] => none
  | '_' :: _ => none
  | cs => readDigits 0 cs

def toNat? (s : String) : Option Nat :=
  match s.toList with
  | '+' :: cs => readUnsigned cs
  | cs => readUnsigned cs

def pair (b : UInt8) : List Char := [digit (b.toNat / 16), digit (b.toNat % 16)]

def ofBytes (bytes : Bytes) : String := String.ofList (bytes.flatMap pair)

/-- Reads pairs of digits; a digit without a partner is refused. -/
def readPairs : List Char → Option Bytes
  | [] => some []
  | [_] => none
  | h :: l :: cs =>
    match value? h, value? l, readPairs cs with
    | some h, some l, some bytes => some (UInt8.ofNat (h * 16 + l) :: bytes)
    | _, _, _ => none

def toBytes? (s : String) : Option Bytes := readPairs s.toList

def ofUInt64 (w : UInt64) : String :=
  String.ofList (((Bytes.ofUInt64 w).flatMap pair).map Char.toLower)

end ThresholdElGamal.Hex
