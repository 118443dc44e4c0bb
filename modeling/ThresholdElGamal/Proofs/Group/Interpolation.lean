import Mathlib.LinearAlgebra.Lagrange
import ThresholdElGamal.Group.Interpolation
import ThresholdElGamal.Proofs.Group.Powers

/-! # Weights interpolate at zero

The weight of a coordinate is the value at zero of its basis polynomial modulo `q`, so weighted
values of a polynomial with no more coefficients than coordinates add up to its value at zero. No
weight divides by zero, since different coordinates stay different modulo `q`.
-/

namespace ThresholdElGamal

open Polynomial

/-- A coordinate as a point of the field modulo `q`. -/
def node (x : UInt32) : ZMod order := x.toNat

theorem coordinate_mod_order (x : UInt32) : x.toNat % order = x.toNat := by
  have hwide := pow_add_pow_lt_order
  have hx := x.toNat_lt
  exact Nat.mod_eq_of_lt (by omega)

theorem node_injective : Function.Injective node := by
  intro x y h
  have hmod := (ZMod.natCast_eq_natCast_iff' _ _ _).1 h
  rw [coordinate_mod_order, coordinate_mod_order] at hmod
  exact UInt32.toNat_inj.1 hmod

namespace Exponent

theorem residue_prod (ws : List Exponent) : (prod ws).residue = (ws.map residue).prod := by
  simp [prod, residue_foldl_mul]

theorem prod_lt (ws : List Exponent) : (prod ws).val < order :=
  foldl_lt (fun _ _ _ => mod_order_lt _) ws (Nat.Prime.one_lt order_prime)

instance : RightCommutative ((· * ·) : Exponent → Exponent → Exponent) where
  right_comm u v w := by
    simp only [mul_def, Nat.mod_mul_mod, Nat.mul_right_comm]

theorem prod_perm {vs ws : List Exponent} (h : vs.Perm ws) : prod vs = prod ws :=
  h.foldl_eq one

end Exponent

theorem residue_sub_coordinate (x j : UInt32) :
    (Exponent.ofNat j.toNat - Exponent.ofNat x.toNat).residue = node j - node x := by
  have hlt : (Exponent.ofNat x.toNat).val < order := Exponent.mod_order_lt _
  rw [Exponent.residue_sub_of_lt hlt]
  simp [node]

theorem residue_lagrangeWeight (x : UInt32) (present : List UInt32) :
    (lagrangeWeight x present).residue =
      ((present.filter (· != x)).map fun j => node j / (node j - node x)).prod := by
  simp only [lagrangeWeight, Exponent.residue_div, Exponent.residue_prod, List.map_map,
    Function.comp_def, residue_sub_coordinate, Exponent.residue_ofNat, div_eq_mul_inv]
  induction present.filter (· != x) with
  | nil => simp
  | cons j others ih =>
    simp only [List.map_cons, List.prod_cons, mul_inv, ← ih]
    simp only [node]
    ring

theorem node_sub_node_ne_zero {x j : UInt32} {present : List UInt32}
    (hj : j ∈ present.filter (· != x)) : node j - node x ≠ 0 := by
  simp only [List.mem_filter, bne_iff_ne] at hj
  exact sub_ne_zero.2 fun h => hj.2 (node_injective h)

/-- The product of the other coordinates. -/
def lagrangeNumerator (x : UInt32) (present : List UInt32) : Exponent :=
  .prod ((present.filter (· != x)).map fun j => .ofNat j.toNat)

/-- The product of the distances of the other coordinates. -/
def lagrangeDenominator (x : UInt32) (present : List UInt32) : Exponent :=
  .prod ((present.filter (· != x)).map fun j => .ofNat j.toNat - .ofNat x.toNat)

theorem lagrangeWeight_eq_div (x : UInt32) (present : List UInt32) :
    lagrangeWeight x present = lagrangeNumerator x present / lagrangeDenominator x present := by
  simp only [lagrangeWeight, lagrangeNumerator, lagrangeDenominator, List.map_map,
    Function.comp_def]

theorem residue_lagrangeDenominator_ne_zero (x : UInt32) (present : List UInt32) :
    (lagrangeDenominator x present).residue ≠ 0 := by
  rw [lagrangeDenominator, Exponent.residue_prod, List.map_map, Ne, List.prod_eq_zero_iff]
  intro hmem
  obtain ⟨j, hj, hzero⟩ := List.mem_map.1 hmem
  rw [Function.comp_apply, residue_sub_coordinate] at hzero
  exact node_sub_node_ne_zero hj hzero

theorem lagrangeWeight_mul_denominator (x : UInt32) (present : List UInt32) :
    lagrangeWeight x present * lagrangeDenominator x present = lagrangeNumerator x present := by
  have hproduct : (lagrangeWeight x present * lagrangeDenominator x present).val < order :=
    Exponent.mod_order_lt _
  have hnumerator : (lagrangeNumerator x present).val < order := Exponent.prod_lt _
  apply Exponent.ext_residue hproduct hnumerator
  rw [lagrangeWeight_eq_div, Exponent.residue_mul, Exponent.residue_div,
    div_mul_cancel₀ _ (residue_lagrangeDenominator_ne_zero x present)]

theorem lagrangeWeight_perm (x : UInt32) {xs ys : List UInt32} (h : xs.Perm ys) :
    lagrangeWeight x xs = lagrangeWeight x ys := by
  have hnumerator : lagrangeNumerator x xs = lagrangeNumerator x ys :=
    Exponent.prod_perm ((h.filter _).map _)
  have hdenominator : lagrangeDenominator x xs = lagrangeDenominator x ys :=
    Exponent.prod_perm ((h.filter _).map _)
  rw [lagrangeWeight_eq_div, lagrangeWeight_eq_div, hnumerator, hdenominator]

variable {xs : List UInt32}

theorem residue_weight_eq_basis (hxs : xs.Nodup) (x : UInt32) :
    (lagrangeWeight x xs).residue = (Lagrange.basis xs.toFinset node x).eval 0 := by
  have hfilter : (xs.filter (· != x)).toFinset = xs.toFinset.erase x := by
    ext j
    simp [and_comm]
  rw [residue_lagrangeWeight, Lagrange.basis, eval_prod, ← hfilter,
    List.prod_toFinset _ (hxs.filter _)]
  congr 1
  apply List.map_congr_left
  intro j hj
  have hne := node_sub_node_ne_zero hj
  have hne' : node x - node j ≠ 0 := by
    rw [← neg_sub]
    exact neg_ne_zero.2 hne
  simp only [Lagrange.basisDivisor, eval_mul, eval_C, eval_sub, eval_X]
  field_simp
  ring

theorem sum_weight_eval (hxs : xs.Nodup) {f : (ZMod order)[X]} (hdeg : f.degree < xs.length) :
    (xs.map fun x => (lagrangeWeight x xs).residue * f.eval (node x)).sum = f.eval 0 := by
  have hcard : f.degree < xs.toFinset.card := by
    rwa [List.toFinset_card_of_nodup hxs]
  have hf := Lagrange.eq_interpolate node_injective.injOn hcard
  conv_rhs => rw [hf, Lagrange.interpolate_apply, eval_finsetSum]
  rw [List.sum_toFinset _ hxs]
  congr 1
  apply List.map_congr_left
  intro x _
  rw [residue_weight_eq_basis hxs, eval_mul, eval_C, mul_comm]

/-- The weighted values of a polynomial at distinct coordinates add up to its value at zero, if they
are as many as its coefficients. No weight depends on the order of the coordinates. -/
theorem weights_interpolate_at_zero (hxs : xs.Nodup) {f : (ZMod order)[X]}
    (hdeg : f.degree < xs.length) :
    Exponent.sum (xs.map fun x => lagrangeWeight x xs * .ofResidue (f.eval (node x))) =
        .ofResidue (f.eval 0) ∧
      ∀ ys, xs.Perm ys → ∀ x, lagrangeWeight x ys = lagrangeWeight x xs := by
  refine ⟨?_, fun ys hperm x => lagrangeWeight_perm x hperm.symm⟩
  apply Exponent.ext_residue (Exponent.sum_lt _) (Exponent.ofResidue_lt _)
  simp only [Exponent.residue_sum, List.map_map, Function.comp_def, Exponent.residue_mul,
    Exponent.residue_ofResidue]
  exact sum_weight_eval hxs hdeg

/-- A line through eight at one and eleven at two passes zero at five. -/
theorem weights_interpolate_at_zero_line :
    [(1 : UInt32), 2].Nodup ∧ (C 5 + C 3 * X : (ZMod order)[X]).degree < 2 ∧
      Exponent.sum [lagrangeWeight 1 [1, 2] * .ofNat 8, lagrangeWeight 2 [1, 2] * .ofNat 11] =
        .ofNat 5 ∧
      lagrangeWeight 2 [2, 1] = lagrangeWeight 2 [1, 2] := by
  have hxs : [(1 : UInt32), 2].Nodup := by decide
  have hdeg : (C 5 + C 3 * X : (ZMod order)[X]).degree < 2 := by
    rw [add_comm]
    exact degree_linear_lt
  obtain ⟨hsum, hperm⟩ := weights_interpolate_at_zero hxs hdeg
  refine ⟨hxs, hdeg, ?_, hperm [2, 1] (List.Perm.swap 2 1 []) 2⟩
  have hone : node 1 = 1 := Nat.cast_one
  have htwo : node 2 = 2 := Nat.cast_ofNat
  have height : (C 5 + C 3 * X : (ZMod order)[X]).eval (node 1) = (8 : ℕ) := by
    norm_num [hone]
  have heleven : (C 5 + C 3 * X : (ZMod order)[X]).eval (node 2) = (11 : ℕ) := by
    norm_num [htwo]
  have hfive : (C 5 + C 3 * X : (ZMod order)[X]).eval 0 = (5 : ℕ) := by simp
  simpa only [List.map_cons, List.map_nil, height, heleven, hfive, Exponent.ofResidue_natCast]
    using hsum

end ThresholdElGamal
