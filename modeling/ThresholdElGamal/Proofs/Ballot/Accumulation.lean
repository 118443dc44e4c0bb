import Mathlib.Data.List.Forall2
import ThresholdElGamal.Ballot.Encrypted
import ThresholdElGamal.Proofs.Election.Acceptance

/-! # Adding up ballots

The layout of a ballot lists the ids of its contests and selections. Ballots are added up exactly
when all have the layout of the first; the sum keeps the layout, and at every place of it the
ciphertexts of the ballots are added.
-/

namespace ThresholdElGamal

def EncryptedContest.layout (c : EncryptedContest) : String × List String :=
  (c.contestId, c.selections.map (·.selectionId))

def ContestTally.layout (c : ContestTally) : String × List String :=
  (c.contestId, c.selections.map (·.selectionId))

def EncryptedBallot.layout (b : EncryptedBallot) : List (String × List String) :=
  b.contests.map (·.layout)

def EncryptedTally.layout (t : EncryptedTally) : List (String × List String) :=
  t.contests.map (·.layout)

/-- The ciphertext of a selection of a contest, by their positions. -/
def EncryptedBallot.cell? (b : EncryptedBallot) (i j : ℕ) : Option Ciphertext :=
  (b.contests[i]?.bind (·.selections[j]?)).map (·.ciphertext)

def EncryptedTally.cell? (t : EncryptedTally) (i j : ℕ) : Option Ciphertext :=
  (t.contests[i]?.bind (·.selections[j]?)).map (·.ciphertext)

namespace EncryptedTally

variable {t : EncryptedTally} {b : EncryptedBallot}

theorem fits_iff {c : EncryptedContest} {total : ContestTally} :
    fits c total = true ↔ c.layout = total.layout := by
  simp [fits, EncryptedContest.layout, ContestTally.layout]

theorem layout_eq_iff : b.layout = t.layout ↔
    List.Forall₂ (fun c total => fits c total = true) b.contests t.contests := by
  rw [EncryptedBallot.layout, EncryptedTally.layout, ← List.forall₂_eq_eq_eq,
    List.forall₂_map_left_iff, List.forall₂_map_right_iff]
  simp only [fits_iff]

theorem ballotDefects_eq_nil : ballotDefects t b = [] ↔ b.layout = t.layout := by
  rw [ballotDefects, layout_eq_iff, List.forall₂_iff_zip]
  split
  · next h => simp [contestDefects, h]
  · next h => simp [h]

theorem layout_blank (b : EncryptedBallot) : (blank b).layout = b.layout := by
  simp [blank, EncryptedTally.layout, EncryptedBallot.layout, ContestTally.layout,
    EncryptedContest.layout, Function.comp_def]

theorem cell?_blank (b : EncryptedBallot) (i j : ℕ) :
    (blank b).cell? i j = (b.cell? i j).map fun _ => .zero := by
  rw [cell?, EncryptedBallot.cell?, blank, List.getElem?_map]
  cases b.contests[i]? with
  | none => rfl
  | some c => simp [Function.comp_def]

theorem addContest_of_fits {c : EncryptedContest} {total : ContestTally}
    (h : fits c total = true) : addContest c total =
      { total with selections := List.zipWith addSelection c.selections total.selections } :=
  if_pos h

theorem map_selectionId_zipWith {added sums : List EncryptedSelection}
    (h : added.length = sums.length) :
    (List.zipWith addSelection added sums).map (·.selectionId) = sums.map (·.selectionId) := by
  apply List.ext_getElem
  · simp [h]
  · intro j hj hj'
    simp [addSelection]

theorem layout_addContest {c : EncryptedContest} {total : ContestTally}
    (h : fits c total = true) : (addContest c total).layout = total.layout := by
  have hids := congrArg Prod.snd (fits_iff.1 h)
  have hlength : c.selections.length = total.selections.length := by
    simpa [EncryptedContest.layout, ContestTally.layout] using congrArg List.length hids
  rw [addContest_of_fits h, ContestTally.layout, ContestTally.layout,
    map_selectionId_zipWith hlength]

section AddBallot

variable (h : b.layout = t.layout)
include h

theorem addBallot_of_layout : addBallot t b = ⟨List.zipWith addContest b.contests t.contests⟩ :=
  if_pos (layout_eq_iff.1 h).length_eq

theorem layout_addBallot : (addBallot t b).layout = t.layout := by
  rw [addBallot_of_layout h, EncryptedTally.layout, EncryptedTally.layout]
  have hfits := layout_eq_iff.1 h
  clear h
  generalize b.contests = cs, t.contests = totals at hfits
  induction hfits with
  | nil => rfl
  | cons hfit _ ih =>
    rw [List.zipWith_cons_cons, List.map_cons, List.map_cons, ih, layout_addContest hfit]

theorem cell?_addBallot (i j : ℕ) : (addBallot t b).cell? i j =
    (t.cell? i j).bind fun sum => (b.cell? i j).map (sum + ·) := by
  obtain ⟨-, hfits⟩ := List.forall₂_iff_zip.1 (layout_eq_iff.1 h)
  rw [addBallot_of_layout h, cell?, cell?, EncryptedBallot.cell?, List.getElem?_zipWith]
  cases htotal : t.contests[i]? with
  | none => cases b.contests[i]? <;> rfl
  | some total =>
    cases hcontest : b.contests[i]? with
    | none => simp
    | some c =>
      have hfit := hfits (List.mem_of_getElem? (List.getElem?_zip_eq_some.2 ⟨hcontest, htotal⟩))
      simp only [Option.bind_some, addContest_of_fits hfit, List.getElem?_zipWith]
      cases total.selections[j]? <;> cases c.selections[j]? <;> simp [addSelection]

end AddBallot

theorem layout_foldl {ballots : List EncryptedBallot} (h : ∀ b ∈ ballots, b.layout = t.layout) :
    (ballots.foldl addBallot t).layout = t.layout := by
  induction ballots generalizing t with
  | nil => rfl
  | cons b ballots ih =>
    rw [List.forall_mem_cons] at h
    have hlayout := layout_addBallot h.1
    rw [List.foldl_cons, ih fun b' hb' => (h.2 b' hb').trans hlayout.symm, hlayout]

/-- Ballots are added up when they have one layout. -/
theorem accumulate_eq_ok {first : EncryptedBallot} {ballots : List EncryptedBallot} :
    accumulate (first :: ballots) = .ok t ↔ (∀ b ∈ first :: ballots, b.layout = first.layout) ∧
      (first :: ballots).foldl addBallot (blank first) = t := by
  simp only [accumulate, unlessProblems_eq_ok, List.flatMap_eq_nil_iff, List.map_eq_nil_iff,
    ballotDefects_eq_nil, layout_blank]

end EncryptedTally

end ThresholdElGamal
