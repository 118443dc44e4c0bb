import ThresholdElGamal.Bytes.Hex
import ThresholdElGamal.Json.Print
import ThresholdElGamal.Json.Record

/-! # Values on the wire

Every record that leaves a process has one JSON form. Reading accepts more than writing
produces: records as arrays, small numbers as JSON integers, hexadecimal digits of either case.
-/

namespace ThresholdElGamal

open Json (Value)

class Wire (α : Type) where
  encode : α → Value
  decode : Value → Option α

namespace Wire

export Json.Slot (required orDefault orAbsent)

/-- A nonnegative integer below a bound. -/
def decodeBelow (bound : Nat) : Value → Option Nat
  | .integer (.ofNat n) => if n < bound then some n else none
  | _ => none

instance : Wire UInt32 where
  encode n := .nat n.toNat
  decode v := (decodeBelow UInt32.size v).map UInt32.ofNat

instance : Wire UInt64 where
  encode n := .nat n.toNat
  decode v := (decodeBelow UInt64.size v).map UInt64.ofNat

instance : Wire Bool where
  encode := .bool
  decode
    | .bool b => some b
    | _ => none

instance : Wire String where
  encode := .text
  decode
    | .string text => text
    | _ => none

instance {α : Type} [Wire α] : Wire (List α) where
  encode xs := .array (xs.map encode)
  decode
    | .array items => items.mapM decode
    | _ => none

instance {α : Type} [Wire α] : Wire (Option α) where
  encode
    | some a => encode a
    | none => .null
  decode
    | .null => some none
    | v => (decode v).map some

/-- A number of any size, in hexadecimal. -/
def encodeNat (n : Nat) : Value := .text (Hex.ofNat n)

/-- A number in hexadecimal, or a JSON integer of at most 64 bits. -/
def decodeNat : Value → Option Nat
  | .string text => text.bind Hex.toNat?
  | v => decodeBelow UInt64.size v

def encodeBytes (bytes : Bytes) : Value := .text (Hex.ofBytes bytes)

def decodeBytes : Value → Option Bytes
  | .string text => text.bind Hex.toBytes?
  | _ => none

def print {α : Type} [Wire α] (a : α) : String := (encode a).toText

end Wire

end ThresholdElGamal
