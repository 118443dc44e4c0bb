import ThresholdElGamal.Proofs.Election.Acceptance
import ThresholdElGamal.Proofs.Election.Polynomials

/-! # Share keys served by a roster

A roster keeps the joint polynomial at the coordinates of its guardians, in the exponent, and
computes it everywhere else. However many of the values are kept, the one that is served is the
computed one. It belongs to the sum of the guardians' polynomials, leads from names to the same
keys as from coordinates, and is the joint public key at zero.
-/

namespace ThresholdElGamal

open Polynomial

theorem natCast_sum_mapIdx (as : List Exponent) (n : ℕ) :
    ((as.mapIdx fun k a => a.val * n ^ k).sum : ZMod order) =
      (polynomial as).eval (n : ZMod order) := by
  induction as with
  | nil => simp [polynomial]
  | cons a as ih =>
    have hshift : as.mapIdx (fun k a => a.val * n ^ (k + 1)) =
        (as.mapIdx fun k a => a.val * n ^ k).map fun m => n * m := by
      simp only [List.mapIdx_eq_zipIdx_map, List.map_map, Function.comp_def, pow_succ',
        mul_left_comm]
    rw [List.mapIdx_cons, List.sum_cons, hshift, List.sum_map_mul_left, List.map_id', pow_zero,
      mul_one, Nat.cast_add, Nat.cast_mul, ih]
    simp [polynomial, Exponent.residue]

/-- The sum of the guardians' polynomials at a coordinate, over the integers. -/
def jointSum (coefficients : List (List Exponent)) (x : UInt32) : ℕ :=
  (coefficients.map fun as => (as.mapIdx fun k a => a.val * x.toNat ^ k).sum).sum

theorem natCast_jointSum (coefficients : List (List Exponent)) (x : UInt32) :
    (jointSum coefficients x : ZMod order) = (jointPolynomial coefficients).eval (node x) := by
  rw [jointSum, jointPolynomial, Nat.cast_list_sum, eval_listSum, List.map_map, List.map_map]
  simp only [Function.comp_def, natCast_sum_mapIdx, node]

namespace Roster

variable {r : Roster}

/-- The joint polynomial at a coordinate, in the exponent, served from the values that are kept and
computed where none is. -/
def served (guardians : List Guardian) (kept : List Element) (x : UInt32) : Element :=
  ((guardians.findIdx? (·.xCoordinate == x)).bind fun i => kept[i]?).getD (jointValue guardians x)

theorem served_take (r : Roster) (n : ℕ) (x : UInt32) :
    served r.guardians (r.shareKeys.take n) x = jointValue r.guardians x := by
  rw [served]
  cases hposition : r.guardians.findIdx? (·.xCoordinate == x) with
  | none => rfl
  | some i =>
    obtain ⟨hi, hx, -⟩ := List.findIdx?_eq_some_iff_getElem.1 hposition
    rw [Option.bind_some, List.getElem?_take]
    split
    · rw [r.shareKeys_eq, List.getElem?_map, List.getElem?_eq_getElem hi, Option.map_some,
        Option.getD_some, eq_of_beq hx]
    · rfl

theorem shareKeyAt_eq_jointValue (r : Roster) (x : UInt32) :
    r.shareKeyAt x = jointValue r.guardians x := by
  rw [← r.served_take r.shareKeys.length, List.take_length]
  rfl

theorem shareKey?_eq_map_get? (r : Roster) (id : String) :
    r.shareKey? id = (r.get? id).map fun g => r.shareKeyAt g.xCoordinate := by
  cases hget : r.get? id with
  | none =>
    have hposition : r.position? id = none := by
      rw [get?, List.find?_eq_none] at hget
      simpa [position?] using hget
    rw [shareKey?, hposition]
    rfl
  | some g => rw [shareKey?_of_get? hget, Option.map_some, shareKeyAt_eq_jointValue]

theorem shareKeys_eq_map_served (r : Roster) :
    r.shareKeys = r.guardians.map fun g => served r.guardians [] g.xCoordinate := by
  rw [r.shareKeys_eq]
  apply List.map_congr_left
  intro g _
  rw [← r.served_take 0, List.take_zero]

theorem shareKeyAt_zero {coefficients : List (List Exponent)}
    (h : Commits r.guardians coefficients) : r.shareKeyAt 0 = r.jointPublicKey := by
  rw [shareKeyAt_eq_jointValue, h.jointValue, h.jointPublicKey]
  apply genPow_congr
  have hzero : node 0 = 0 := Nat.cast_zero
  rw [Dealer.residue_keyShare, Dealer.residue_secretKey, hzero]

/-- What a roster serves at a coordinate is the generator to the power of the sum of the guardians'
polynomials, however many values are kept. -/
theorem shareKeys_commit_jointly {coefficients : List (List Exponent)}
    (h : Commits r.guardians coefficients) :
    (∀ x, r.shareKeyAt x = genPow (.ofNat (jointSum coefficients x))) ∧
      (r.shareKeys = r.guardians.map fun g => served r.guardians [] g.xCoordinate) ∧
      (∀ n x, served r.guardians (r.shareKeys.take n) x = r.shareKeyAt x) ∧
      (∀ id, r.shareKey? id = (r.get? id).map fun g => r.shareKeyAt g.xCoordinate) ∧
      r.shareKeyAt 0 = r.jointPublicKey := by
  refine ⟨fun x => ?_, r.shareKeys_eq_map_served, fun n x => ?_, r.shareKey?_eq_map_get?,
    shareKeyAt_zero h⟩
  · rw [shareKeyAt_eq_jointValue, h.jointValue]
    apply genPow_congr
    rw [Dealer.residue_keyShare, Exponent.residue_ofNat, natCast_jointSum]
  · rw [served_take, shareKeyAt_eq_jointValue]

/-- Two guardians with two and three coefficients; the second is found by its name, and no guardian
stands at three. -/
theorem shareKeys_commit_jointly_two_guardians :
    ∃ r : Roster, ofGuardians
        [⟨"a", 1, [genPow ⟨3⟩, genPow ⟨5⟩], []⟩,
          ⟨"b", 2, [genPow ⟨7⟩, genPow ⟨11⟩, genPow ⟨2⟩], []⟩] = .ok r ∧
      Commits r.guardians [[⟨3⟩, ⟨5⟩], [⟨7⟩, ⟨11⟩, ⟨2⟩]] ∧
        r.shareKeyAt 3 = genPow (.ofNat 76) ∧ r.shareKey? "b" = some (genPow (.ofNat 50)) ∧
        r.jointPublicKey = genPow (.ofNat 10) := by
  have hproblems : problems [⟨"a", 1, [genPow ⟨3⟩, genPow ⟨5⟩], []⟩,
      ⟨"b", 2, [genPow ⟨7⟩, genPow ⟨11⟩, genPow ⟨2⟩], []⟩] = [] := by decide
  obtain ⟨r, hr, hguardians⟩ := ofGuardians_ok hproblems
  have hcommits : Commits r.guardians [[⟨3⟩, ⟨5⟩], [⟨7⟩, ⟨11⟩, ⟨2⟩]] := by
    rw [hguardians]
    rfl
  obtain ⟨hpower, -, -, hname, hzero⟩ := shareKeys_commit_jointly hcommits
  refine ⟨r, hr, hcommits, hpower 3, ?_, hzero.symm.trans (hpower 0)⟩
  rw [hname, get?, hguardians]
  exact congrArg some (hpower 2)

end Roster

end ThresholdElGamal
