import Mathlib.Data.Set.Basic
import Mathlib.Order.Interval.Set.Defs
import ThresholdElGamal.Proofs.Decryption.Flags

/-! # What the verification of a record covers

A record is well formed when it has a place for every text, flags exactly the places without an item
and proves every item. The verification walks through the places, so it compares the flags with the
items only there: a flag behind the last place goes unnoticed, and all else is checked.
-/

namespace ThresholdElGamal

def Flags.positions (flags : Flags) : Set ℕ := {i | ∃ k ∈ flags.entries.map (·.1), k.toNat = i}

namespace Decryptions

variable {d : Decryptions} {texts : List Cipher} {context : ElectionContext} {i : ℕ}

def blanks (d : Decryptions) : Set ℕ := {i | d.items[i]? = some none}

/-- Every item verifies for the text at its position. -/
def Proven (d : Decryptions) (texts : List Cipher) (context : ElectionContext) : Prop :=
  ∀ (i : ℕ) (item : Decryption) (text : Cipher), d.items[i]? = some (some item) →
    texts[i]? = some text → item.verify text context = true

/-- The record has a place for every text, flags the places without an item and no others, and
proves every item. -/
structure WellFormed (d : Decryptions) (texts : List Cipher) (context : ElectionContext) :
    Prop where
  length : d.items.length = texts.length
  positions : d.flagged.positions = d.blanks
  proven : d.Proven texts context

theorem isFlagged_iff : d.isFlagged i = true ↔ i ∈ d.flagged.positions := Flags.contains_iff

theorem lt_of_mem_blanks (h : i ∈ d.blanks) : i < d.items.length :=
  (List.getElem?_eq_some_iff.1 h).1

/-- Who contributed to a record, and which of its items verify for a text. -/
def verdict (d : Decryptions) (text : Cipher) (context : ElectionContext) :
    List String × List (Option Bool) :=
  (d.guardianIds, d.items.map (Option.map fun item => item.verify text context))

theorem exists_item_of_verdict {ε : Type} {outcome : Except ε Decryptions} {text : Cipher}
    {ids : List String} {verified : Bool}
    (h : outcome.toOption.map (·.verdict text context) = some (ids, [some verified])) :
    ∃ record item, outcome = .ok record ∧ record.guardianIds = ids ∧
      record.items = [some item] ∧ item.verify text context = verified := by
  cases outcome with
  | error problems => cases h
  | ok record =>
    obtain ⟨hids, hverdicts⟩ := Prod.mk.inj (Option.some_inj.1 h)
    obtain ⟨place, hitems, hplace⟩ := List.map_eq_singleton_iff.1 hverdicts
    obtain ⟨item, rfl, hverify⟩ := Option.map_eq_some_iff.1 hplace
    exact ⟨record, item, rfl, hids, hitems, hverify⟩

theorem forall_mem_zipIdx_zip {α β : Type} {xs : List α} {ys : List β}
    {p : (α × β) × ℕ → Prop} : (∀ x ∈ (xs.zip ys).zipIdx, p x) ↔
      ∀ i a b, xs[i]? = some a → ys[i]? = some b → p ((a, b), i) := by
  constructor
  · intro h i a b ha hb
    exact h _ (List.mk_mem_zipIdx_iff_getElem?.2 (List.getElem?_zip_eq_some.2 ⟨ha, hb⟩))
  · rintro h ⟨⟨a, b⟩, i⟩ hmem
    obtain ⟨ha, hb⟩ := List.getElem?_zip_eq_some.1 (List.mk_mem_zipIdx_iff_getElem?.1 hmem)
    exact h i a b ha hb

/-- A record verifies when the flags tell at every place whether there is an item, and the items
verify. -/
theorem verify_iff_forall_place : d.verify texts context = true ↔
    d.items.length = texts.length ∧
      ∀ i (item : Option Decryption) text, d.items[i]? = some item → texts[i]? = some text →
        (d.isFlagged i = true ↔ item = none) ∧ ∀ x ∈ item, x.verify text context = true := by
  rw [verify, Bool.and_eq_true, beq_iff_eq, List.all_eq_true, forall_mem_zipIdx_zip]
  refine and_congr_right fun _ => forall₃_congr fun i item text => forall₂_congr fun _ _ => ?_
  cases item with
  | none => simp
  | some item => simp

theorem positions_inter_eq_blanks : d.flagged.positions ∩ Set.Iio d.items.length = d.blanks ↔
    ∀ i < d.items.length, i ∈ d.flagged.positions ↔ d.items[i]? = some none := by
  constructor
  · intro h i hi
    have hiff : i ∈ d.flagged.positions ∩ Set.Iio d.items.length ↔ i ∈ d.blanks := by rw [h]
    exact ⟨fun hflagged => hiff.1 ⟨hflagged, hi⟩, fun hblank => (hiff.2 hblank).1⟩
  · intro h
    ext i
    constructor
    · rintro ⟨hflagged, hi⟩
      exact (h i hi).1 hflagged
    · intro hblank
      have hi := lt_of_mem_blanks hblank
      exact ⟨(h i hi).2 hblank, hi⟩

theorem verify_iff : d.verify texts context = true ↔
    d.items.length = texts.length ∧
      d.flagged.positions ∩ Set.Iio d.items.length = d.blanks ∧ d.Proven texts context := by
  rw [verify_iff_forall_place, positions_inter_eq_blanks]
  refine and_congr_right fun hlength => ?_
  constructor
  · intro hall
    constructor
    · intro i hi
      have htext := List.getElem?_eq_getElem (hlength ▸ hi : i < texts.length)
      rw [List.getElem?_eq_getElem hi, Option.some_inj, ← isFlagged_iff]
      exact (hall i _ _ (List.getElem?_eq_getElem hi) htext).1
    · intro i item text hitem htext
      exact (hall i _ _ hitem htext).2 item rfl
  · rintro ⟨hpositions, hproven⟩ i item text hitem htext
    constructor
    · rw [isFlagged_iff, hpositions i (List.getElem?_eq_some_iff.1 hitem).1, hitem, Option.some_inj]
    · rintro x rfl
      exact hproven i x text hitem htext

theorem wellFormed_iff : d.WellFormed texts context ↔
    d.verify texts context = true ∧ d.flagged.positions ⊆ Set.Iio d.items.length := by
  rw [verify_iff]
  constructor
  · rintro ⟨hlength, hpositions, hproven⟩
    have hwithin : d.flagged.positions ⊆ Set.Iio d.items.length := by
      rw [hpositions]
      exact fun i => lt_of_mem_blanks
    exact ⟨⟨hlength, (Set.inter_eq_left.2 hwithin).trans hpositions, hproven⟩, hwithin⟩
  · rintro ⟨⟨hlength, hpositions, hproven⟩, hwithin⟩
    rw [Set.inter_eq_left.2 hwithin] at hpositions
    exact ⟨hlength, hpositions, hproven⟩

/-- A record verifies exactly when it would be well formed without the flags behind its places, and
it is well formed exactly when it verifies and there are no such flags. -/
theorem verify_iff_wellFormed_within_places (d : Decryptions) (texts : List Cipher)
    (context : ElectionContext) :
    (d.verify texts context = true ↔ d.items.length = texts.length ∧
      d.flagged.positions ∩ Set.Iio d.items.length = d.blanks ∧ d.Proven texts context) ∧
    (d.WellFormed texts context ↔
      d.verify texts context = true ∧ d.flagged.positions ⊆ Set.Iio d.items.length) :=
  ⟨verify_iff, wellFormed_iff⟩

/-- One place without an item, which is flagged, and a flag behind it. -/
def strayRecord : Decryptions :=
  { items := [none], flagged := (Flags.empty.add 0 "no residue").add 1 "no residue" }

theorem verify_strayRecord :
    strayRecord.verify [.elgamal ⟨⟨0⟩, .one⟩] ⟨1, 1, ElectionContext.parameterHash,
        ElectionContext.parameterHash, ElectionContext.parameterHash, .one⟩ = true ∧
      ¬ strayRecord.WellFormed [.elgamal ⟨⟨0⟩, .one⟩] ⟨1, 1, ElectionContext.parameterHash,
        ElectionContext.parameterHash, ElectionContext.parameterHash, .one⟩ := by
  refine ⟨rfl, fun h => ?_⟩
  have hflagged : 1 ∈ strayRecord.flagged.positions := ⟨1, by decide, rfl⟩
  rw [h.positions] at hflagged
  exact absurd (lt_of_mem_blanks hflagged) (by decide)

end Decryptions

end ThresholdElGamal
