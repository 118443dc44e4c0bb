import ThresholdElGamal.Proofs.Json.Records
import ThresholdElGamal.Wire.Basic

/-! # Lossless forms

A form is lossless when reading undoes writing. At the level of values that is a fact about the
fields of a record, one by one; that the printed text is read back as the value follows from the
spelling of the keys.
-/

namespace ThresholdElGamal.Wire

open Json (Value)

variable {α : Type} {write : α → Value} {read : Value → Option α}

def ofText? (read : Value → Option α) (text : String) : Option α := (Json.parse? text).bind read

def rewrite? (write : α → Value) (read : Value → Option α) (text : String) : Option String :=
  (ofText? read text).map fun a => (write a).toText

/-- Every value is what its text holds, different values have different texts, and the text of what
an accepted text holds does not change when it is read and written again. -/
structure RoundTrips (write : α → Value) (read : Value → Option α) : Prop where
  ofText?_toText : ∀ a, ofText? read (write a).toText = some a
  injective : Function.Injective fun a => (write a).toText
  idempotent : ∀ text text', rewrite? write read text = some text' →
    rewrite? write read text' = some text'

theorem roundTrips_of_read_write (hcanonical : ∀ a, (write a).Canonical)
    (hvalue : ∀ a, read (write a) = some a) : RoundTrips write read := by
  have hread (a : α) : ofText? read (write a).toText = some a := by
    rw [ofText?, Value.parse?_toText (hcanonical a), Option.bind_some, hvalue]
  refine ⟨hread, fun a b hab => ?_, fun text text' htext => ?_⟩
  · have hab : (write a).toText = (write b).toText := hab
    rw [← Option.some_inj, ← hread a, hab, hread b]
  · obtain ⟨a, -, rfl⟩ := Option.map_eq_some_iff.1 htext
    rw [rewrite?, hread, Option.map_some]

/-- The form of a type is lossless: reading undoes writing, and the keys of what is written are
spelled as they are printed. -/
class Lossless (α : Type) [Wire α] : Prop where
  canonical_encode : ∀ a : α, (encode a).Canonical
  decode_encode : ∀ a : α, decode (encode a) = some a

attribute [simp] Lossless.canonical_encode Lossless.decode_encode

/-! ### Numbers, texts and lists -/

theorem decodeBelow_nat {n bound : Nat} (h : n < bound) : decodeBelow bound (.nat n) = some n :=
  if_pos h

instance : Lossless UInt32 where
  canonical_encode _ := trivial
  decode_encode n := by
    change (decodeBelow UInt32.size (.nat n.toNat)).map UInt32.ofNat = some n
    rw [decodeBelow_nat n.toNat_lt, Option.map_some, UInt32.ofNat_toNat]

instance : Lossless UInt64 where
  canonical_encode _ := trivial
  decode_encode n := by
    change (decodeBelow UInt64.size (.nat n.toNat)).map UInt64.ofNat = some n
    rw [decodeBelow_nat n.toNat_lt, Option.map_some, UInt64.ofNat_toNat]

instance : Lossless Bool where
  canonical_encode _ := trivial
  decode_encode _ := rfl

instance : Lossless String where
  canonical_encode _ := trivial
  decode_encode _ := rfl

theorem mapM_map_of_read (h : ∀ a, read (write a) = some a) (as : List α) :
    (as.map write).mapM read = some as := by
  induction as with
  | nil => rfl
  | cons a as ih =>
    rw [List.map_cons, List.mapM_cons, h, ih]
    rfl

instance [Wire α] [Lossless α] : Lossless (List α) where
  canonical_encode as := Value.canonical_array.2 (by simp)
  decode_encode as := mapM_map_of_read Lossless.decode_encode as

theorem decode_option_of_ne_null [Wire α] {v : Value} (hv : v ≠ .null) :
    (decode v : Option (Option α)) = (decode v).map some := by
  cases v with
  | null => exact absurd rfl hv
  | _ => rfl

/-- An optional value is lossless when no value has the form of an absent one. -/
theorem Lossless.option [Wire α] [Lossless α] (hnull : ∀ a : α, encode a ≠ .null) :
    Lossless (Option α) where
  canonical_encode
    | none => trivial
    | some a => canonical_encode a
  decode_encode
    | none => rfl
    | some a => by
      change decode (encode a) = some (some a)
      rw [decode_option_of_ne_null (hnull a), decode_encode, Option.map_some]

/-! ### Hexadecimal texts -/

@[simp]
theorem canonical_encodeNat (n : Nat) : (encodeNat n).Canonical := trivial

@[simp]
theorem decodeNat_encodeNat (n : Nat) : decodeNat (encodeNat n) = some n := Hex.toNat?_ofNat n

@[simp]
theorem canonical_encodeBytes (bytes : Bytes) : (encodeBytes bytes).Canonical := trivial

@[simp]
theorem decodeBytes_encodeBytes (bytes : Bytes) : decodeBytes (encodeBytes bytes) = some bytes :=
  Hex.toBytes?_ofBytes bytes

end ThresholdElGamal.Wire
