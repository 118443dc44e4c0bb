import Mathlib.Data.List.Nodup
import ThresholdElGamal.Hash.Field
import ThresholdElGamal.Proofs.Bytes.BigEndian

/-! # Reading hash inputs back

Fields are hashed end to end. A word has four bytes, a reduced element the width of the modulus,
and a text stands behind its length, so such a field in front of a byte string is determined by it,
and so is what follows. For a text this needs its length to fit into the four bytes that state it.
Inputs that differ in a word, which numbers them, are distinct until the words are used up.
-/

namespace ThresholdElGamal

section Words

variable {m n : ℕ}

theorem word_eq_iff : UInt32.ofNat m = UInt32.ofNat n ↔ m % 2 ^ 32 = n % 2 ^ 32 := by
  rw [UInt32.ofNat_eq_iff_mod_eq_toNat, UInt32.toNat_ofNat']

/-- What is told apart by a word can be numbered with words, but for no more places than there are
words. -/
theorem nodup_numbered_iff {α : Type} {f : UInt32 → α} (hf : Function.Injective f) :
    ((List.range n).map fun i => f (UInt32.ofNat i)).Nodup ↔ n ≤ 2 ^ 32 := by
  rw [List.nodup_map_iff_inj_on List.nodup_range]
  simp only [List.mem_range, hf.eq_iff, word_eq_iff]
  constructor
  · intro hdistinct
    by_contra hmany
    exact absurd (hdistinct 0 (by omega) (2 ^ 32) (by omega) (by decide)) (by decide)
  · intro hfew i hi j hj hmod
    rwa [Nat.mod_eq_of_lt (by omega), Nat.mod_eq_of_lt (by omega)] at hmod

end Words

namespace Bytes

@[simp]
theorem toNat_ofUInt32 (w : UInt32) : (ofUInt32 w).toNat = w.toNat := by
  have hw := w.toNat_lt
  simp only [ofUInt32, toNat, List.foldl_cons, List.foldl_nil, UInt32.toNat_toUInt8,
    UInt32.toNat_shiftRight, UInt32.reduceToNat, Nat.reduceMod, Nat.shiftRight_eq_div_pow]
  omega

theorem ofUInt32_injective : Function.Injective ofUInt32 := by
  intro v w h
  apply UInt32.toNat_inj.1
  rw [← toNat_ofUInt32, h, toNat_ofUInt32]

theorem ofUInt32_append_inj {v w : UInt32} {s t : Bytes}
    (h : ofUInt32 v ++ s = ofUInt32 w ++ t) : v = w ∧ s = t := by
  obtain ⟨hbytes, hrest⟩ := List.append_inj h (by rw [length_ofUInt32, length_ofUInt32])
  exact ⟨ofUInt32_injective hbytes, hrest⟩

theorem ofText_injective : Function.Injective ofText := by
  intro s t h
  exact String.toByteArray_inj.1 (ByteArray.ext (Array.toList_inj.1 h))

end Bytes

namespace Element

variable {x y : Element}

theorem bytes_injective : Function.Injective bytes := fun _ _ h =>
  Element.ext (Bytes.ofNat_injective width h)

theorem length_bytes (h : x.val < modulus) : x.bytes.length = width := by
  apply Bytes.length_ofNat
  exact h.trans (by decide)

theorem bytes_append_inj (hx : x.val < modulus) (hy : y.val < modulus) {s t : Bytes}
    (h : x.bytes ++ s = y.bytes ++ t) : x = y ∧ s = t := by
  obtain ⟨hbytes, hrest⟩ := List.append_inj h ((length_bytes hx).trans (length_bytes hy).symm)
  exact ⟨bytes_injective hbytes, hrest⟩

theorem append_bytes_inj (hx : x.val < modulus) (hy : y.val < modulus) {s t : Bytes}
    (h : s ++ x.bytes = t ++ y.bytes) : s = t ∧ x = y := by
  obtain ⟨hrest, hbytes⟩ := List.append_inj' h ((length_bytes hx).trans (length_bytes hy).symm)
  exact ⟨hrest, bytes_injective hbytes⟩

theorem bytes_ne_nil (x : Element) : x.bytes ≠ [] := by
  have hwidth : width ≤ x.bytes.length := Bytes.le_length_ofNat width x.val
  rintro hnil
  rw [hnil] at hwidth
  exact absurd hwidth (by decide)

theorem flatMap_bytes_inj {xs ys : List Element} (hxs : ∀ x ∈ xs, x.val < modulus)
    (hys : ∀ y ∈ ys, y.val < modulus) (h : xs.flatMap bytes = ys.flatMap bytes) : xs = ys := by
  induction xs generalizing ys with
  | nil =>
    cases ys with
    | nil => rfl
    | cons y ys => exact absurd (List.append_eq_nil_iff.1 h.symm).1 y.bytes_ne_nil
  | cons x xs ih =>
    cases ys with
    | nil => exact absurd (List.append_eq_nil_iff.1 h).1 x.bytes_ne_nil
    | cons y ys =>
      rw [List.forall_mem_cons] at hxs hys
      obtain ⟨rfl, hrest⟩ := bytes_append_inj hxs.1 hys.1 h
      rw [ih hxs.2 hys.2 hrest]

end Element

namespace Field

/-- The length of the text can be stated in front of it. -/
def Statable (s : String) : Prop := (Bytes.ofText s).length < 2 ^ 32

theorem textBytes_append_inj {s t : String} (hs : Statable s) (ht : Statable t) {u v : Bytes}
    (h : textBytes s ++ u = textBytes t ++ v) : s = t ∧ u = v := by
  simp only [textBytes, List.append_assoc] at h
  obtain ⟨hlength, hrest⟩ := Bytes.ofUInt32_append_inj h
  have hsame : (Bytes.ofText s).length = (Bytes.ofText t).length := by
    have hmod := congrArg UInt32.toNat hlength
    rwa [UInt32.toNat_ofNat', UInt32.toNat_ofNat', Nat.mod_eq_of_lt hs, Nat.mod_eq_of_lt ht] at hmod
  obtain ⟨hbody, hbehind⟩ := List.append_inj hrest hsame
  exact ⟨Bytes.ofText_injective hbody, hbehind⟩

/-- A text is read back without the length in front of it, which may be cut. -/
theorem textBytes_injective : Function.Injective textBytes := by
  intro s t h
  exact Bytes.ofText_injective (List.append_inj h rfl).2

end Field

end ThresholdElGamal
