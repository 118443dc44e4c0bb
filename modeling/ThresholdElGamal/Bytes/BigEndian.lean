/-! # Byte strings and big-endian numbers

Byte strings are lists. A number is written most significant byte first, padded on the left to
a given width; a number that needs more bytes keeps them all.
-/

namespace ThresholdElGamal

abbrev Bytes := List UInt8

namespace Bytes

/-- Puts the base-256 digits of a number in front of a byte string; zero has no digits. -/
def pushNat (n : Nat) (rest : Bytes) : Bytes :=
  if n = 0 then rest else pushNat (n / 256) (UInt8.ofNat (n % 256) :: rest)

/-- The big-endian digits of a number, padded with zeros to at least `width` bytes. -/
def ofNat (width n : Nat) : Bytes :=
  let digits := pushNat n []
  List.replicate (width - digits.length) 0 ++ digits

def toNat (bytes : Bytes) : Nat :=
  bytes.foldl (fun n b => n * 256 + b.toNat) 0

def ofUInt32 (w : UInt32) : Bytes :=
  [(w >>> 24).toUInt8, (w >>> 16).toUInt8, (w >>> 8).toUInt8, w.toUInt8]

def ofUInt64 (w : UInt64) : Bytes :=
  ofUInt32 (w >>> 32).toUInt32 ++ ofUInt32 w.toUInt32

def toUInt32 (a b c d : UInt8) : UInt32 :=
  a.toUInt32 <<< 24 ||| b.toUInt32 <<< 16 ||| c.toUInt32 <<< 8 ||| d.toUInt32

def ofText (s : String) : Bytes := s.toUTF8.data.toList

@[simp] theorem length_ofUInt32 (w : UInt32) : (ofUInt32 w).length = 4 := rfl

@[simp] theorem length_ofUInt64 (w : UInt64) : (ofUInt64 w).length = 8 := rfl

theorem le_length_ofNat (width n : Nat) : width ≤ (ofNat width n).length := by
  simp only [ofNat, List.length_append, List.length_replicate]
  omega

end Bytes

end ThresholdElGamal
