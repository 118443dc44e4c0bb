import Mathlib.RingTheory.RootsOfUnity.PrimitiveRoots
import ThresholdElGamal.Proofs.Group.Primes

/-! # Residues of exponents and elements

Exponents are read in the field modulo `q`, elements in the field modulo `p`, where the operations
of the scheme become those of the fields. Powers of an element of the subgroup depend on the
residue of the exponent only, and the generator reaches every element of the subgroup.
-/

namespace ThresholdElGamal

instance : Fact order.Prime := ⟨order_prime⟩

instance : Fact modulus.Prime := ⟨modulus_prime⟩

namespace Exponent

variable {v w : Exponent}

def residue (w : Exponent) : ZMod order := w.val

theorem ext_residue (hv : v.val < order) (hw : w.val < order) (h : v.residue = w.residue) :
    v = w := by
  have hmod := (ZMod.natCast_eq_natCast_iff' _ _ _).1 h
  rw [Nat.mod_eq_of_lt hv, Nat.mod_eq_of_lt hw] at hmod
  exact Exponent.ext hmod

theorem mod_order_lt (n : ℕ) : n % order < order := Nat.mod_lt _ (Nat.Prime.pos order_prime)

theorem foldl_lt {α : Type} {f : Exponent → α → Exponent}
    (hf : ∀ w x, w.val < order → (f w x).val < order) (xs : List α) {w : Exponent}
    (hw : w.val < order) : (xs.foldl f w).val < order := by
  induction xs generalizing w with
  | nil => exact hw
  | cons x xs ih => exact ih (hf w x hw)

theorem sum_lt (ws : List Exponent) : (sum ws).val < order :=
  foldl_lt (fun _ _ _ => mod_order_lt _) ws (Nat.Prime.pos order_prime)

def ofResidue (z : ZMod order) : Exponent := ⟨z.val⟩

theorem residue_ofResidue (z : ZMod order) : (ofResidue z).residue = z := ZMod.natCast_zmod_val z

theorem ofResidue_lt (z : ZMod order) : (ofResidue z).val < order := z.val_lt

theorem ofResidue_natCast (n : ℕ) : ofResidue n = ofNat n :=
  Exponent.ext (ZMod.val_natCast order n)

theorem exists_residue_eq (z : ZMod order) : ∃ w : Exponent, w.val < order ∧ w.residue = z :=
  ⟨ofResidue z, ofResidue_lt z, residue_ofResidue z⟩

theorem residue_eq_zero_iff : w.residue = 0 ↔ order ∣ w.val := ZMod.natCast_eq_zero_iff _ _

@[simp]
theorem residue_zero : zero.residue = 0 := Nat.cast_zero

@[simp]
theorem residue_one : one.residue = 1 := Nat.cast_one

@[simp]
theorem residue_ofNat (n : ℕ) : (ofNat n).residue = n := ZMod.natCast_mod _ _

@[simp]
theorem residue_add (v w : Exponent) : (v + w).residue = v.residue + w.residue := by
  simp [residue, add_def]

@[simp]
theorem residue_mul (v w : Exponent) : (v * w).residue = v.residue * w.residue := by
  simp [residue, mul_def]

theorem residue_sub (h : w.val ≤ v.val + order) : (v - w).residue = v.residue - w.residue := by
  simp [residue, sub_def, Nat.cast_sub h]

theorem residue_sub_of_lt (h : w.val < order) : (v - w).residue = v.residue - w.residue :=
  residue_sub (h.le.trans (Nat.le_add_left _ _))

@[simp]
theorem residue_sub_mul (u v w : Exponent) :
    (u - v * w).residue = u.residue - v.residue * w.residue := by
  have hlt : (v * w).val < order := mod_order_lt _
  rw [residue_sub_of_lt hlt, residue_mul]

@[simp]
theorem residue_inverse (w : Exponent) : w.inverse.residue = w.residue⁻¹ := by
  have hwide := pow_add_pow_lt_order
  simp only [inverse, residue, powMod_eq, ZMod.natCast_mod, Nat.cast_pow]
  by_cases h : (w.val : ZMod order) = 0
  · rw [h, inv_zero, zero_pow (by omega)]
  · apply eq_inv_of_mul_eq_one_left
    rw [← pow_succ, show order - 2 + 1 = order - 1 by omega]
    exact ZMod.pow_card_sub_one_eq_one h

@[simp]
theorem residue_div (v w : Exponent) : (v / w).residue = v.residue / w.residue := by
  rw [div_def, residue_mul, residue_inverse, div_eq_mul_inv]

theorem residue_foldl_add (ws : List Exponent) (v : Exponent) :
    (ws.foldl (· + ·) v).residue = v.residue + (ws.map residue).sum := by
  induction ws generalizing v with
  | nil => simp
  | cons w ws ih => simp [ih, add_assoc]

@[simp]
theorem residue_sum (ws : List Exponent) : (sum ws).residue = (ws.map residue).sum := by
  simp [sum, residue_foldl_add]

theorem residue_foldl_mul (ws : List Exponent) (v : Exponent) :
    (ws.foldl (· * ·) v).residue = v.residue * (ws.map residue).prod := by
  induction ws generalizing v with
  | nil => simp
  | cons w ws ih => simp [ih, mul_assoc]

end Exponent

namespace Element

variable {x y : Element} {v w : Exponent}

def residue (x : Element) : ZMod modulus := x.val

theorem ext_residue (hx : x.val < modulus) (hy : y.val < modulus) (h : x.residue = y.residue) :
    x = y := by
  have hmod := (ZMod.natCast_eq_natCast_iff' _ _ _).1 h
  rw [Nat.mod_eq_of_lt hx, Nat.mod_eq_of_lt hy] at hmod
  exact Element.ext hmod

theorem mod_modulus_lt (n : ℕ) : n % modulus < modulus := Nat.mod_lt _ (Nat.Prime.pos modulus_prime)

theorem one_lt : one.val < modulus := Nat.Prime.one_lt modulus_prime

theorem mul_lt (x y : Element) : (x * y).val < modulus := mod_modulus_lt _

theorem pow_lt (x : Element) (w : Exponent) : (x ^ w).val < modulus := by
  rw [pow_def]
  exact mod_modulus_lt _

@[simp]
theorem residue_one : one.residue = 1 := Nat.cast_one

@[simp]
theorem residue_mul (x y : Element) : (x * y).residue = x.residue * y.residue := by
  simp [residue, mul_def]

theorem mul_one_of_lt (hx : x.val < modulus) : x * .one = x := by
  apply ext_residue (mul_lt _ _) hx
  rw [residue_mul, residue_one, mul_one]

@[simp]
theorem residue_pow (x : Element) (w : Exponent) : (x ^ w).residue = x.residue ^ w.val := by
  simp [residue, pow_def]

theorem residue_powNat (x : Element) (n : ℕ) : (x.powNat n).residue = x.residue ^ n := by
  simp [residue, powNat_def]

theorem powNat_lt (x : Element) (n : ℕ) : (x.powNat n).val < modulus := by
  rw [powNat_def]
  exact mod_modulus_lt _

@[simp]
theorem residue_inverse (x : Element) : x.inverse.residue = x.residue⁻¹ := by
  have hwide := pow_add_pow_lt_order
  have heq := modulus_eq
  rw [inverse, residue_powNat]
  by_cases h : x.residue = 0
  · rw [h, inv_zero, zero_pow (by omega)]
  · apply eq_inv_of_mul_eq_one_left
    rw [← pow_succ, show modulus - 2 + 1 = modulus - 1 by omega]
    exact ZMod.pow_card_sub_one_eq_one h

@[simp]
theorem residue_div (x y : Element) : (x / y).residue = x.residue / y.residue := by
  rw [div_def, residue_mul, residue_inverse, div_eq_mul_inv]

theorem div_lt (x y : Element) : (x / y).val < modulus := mul_lt _ _

theorem residue_foldl_mul (xs : List Element) (y : Element) :
    (xs.foldl (· * ·) y).residue = y.residue * (xs.map residue).prod := by
  induction xs generalizing y with
  | nil => simp
  | cons x xs ih => simp [ih, mul_assoc]

@[simp]
theorem residue_prod (xs : List Element) : (prod xs).residue = (xs.map residue).prod := by
  simp [prod, residue_foldl_mul]

theorem foldl_mul_lt (xs : List Element) (hy : y.val < modulus) :
    (xs.foldl (· * ·) y).val < modulus := by
  induction xs generalizing y with
  | nil => exact hy
  | cons x xs ih => exact ih (mul_lt _ _)

theorem prod_lt (xs : List Element) : (prod xs).val < modulus :=
  foldl_mul_lt xs one_lt

/-- The power of order `q` is one, whether the number is reduced or not. -/
def IsTorsion (x : Element) : Prop := x.residue ^ order = 1

theorem isResidue_iff : x.isResidue = true ↔ x.val < modulus ∧ x.IsTorsion := by
  have hcast : x.IsTorsion ↔ x.val ^ order % modulus = 1 := by
    have hiff := ZMod.natCast_eq_natCast_iff' (x.val ^ order) 1 modulus
    rwa [Nat.mod_eq_of_lt (Nat.Prime.one_lt modulus_prime), Nat.cast_pow, Nat.cast_one] at hiff
  simp only [isResidue, powMod_eq, Bool.and_eq_true, bne_iff_ne, beq_iff_eq, decide_eq_true_eq,
    ← hcast]
  constructor
  · rintro ⟨⟨-, hlt⟩, htor⟩
    exact ⟨hlt, htor⟩
  · rintro ⟨hlt, htor⟩
    refine ⟨⟨?_, hlt⟩, htor⟩
    intro hzero
    have hne := Nat.Prime.ne_zero order_prime
    simp only [IsTorsion, residue, hzero, Nat.cast_zero, zero_pow hne] at htor
    exact zero_ne_one htor

theorem IsTorsion.residue_ne_zero (h : x.IsTorsion) : x.residue ≠ 0 := by
  intro hzero
  rw [IsTorsion, hzero, zero_pow (Nat.Prime.ne_zero order_prime)] at h
  exact zero_ne_one h

theorem IsTorsion.pow (h : x.IsTorsion) (w : Exponent) : (x ^ w).IsTorsion := by
  rw [IsTorsion, residue_pow, ← pow_mul, mul_comm, pow_mul, h, one_pow]

theorem IsTorsion.of_isResidue (h : x.isResidue = true) : x.IsTorsion := (isResidue_iff.1 h).2

theorem IsTorsion.isResidue_pow (h : x.IsTorsion) (w : Exponent) : (x ^ w).isResidue = true :=
  isResidue_iff.2 ⟨pow_lt _ _, h.pow w⟩

theorem IsTorsion.pow_mod (h : x.IsTorsion) (n : ℕ) :
    x.residue ^ (n % order) = x.residue ^ n :=
  (pow_eq_pow_mod n h).symm

theorem IsTorsion.pow_eq_pow (h : x.IsTorsion) {m n : ℕ} (hmn : (m : ZMod order) = n) :
    x.residue ^ m = x.residue ^ n := by
  rw [← h.pow_mod m, (ZMod.natCast_eq_natCast_iff' _ _ _).1 hmn, h.pow_mod]

theorem IsTorsion.pow_congr (h : x.IsTorsion) (hvw : v.residue = w.residue) : x ^ v = x ^ w := by
  apply ext_residue (pow_lt _ _) (pow_lt _ _)
  rw [residue_pow, residue_pow, h.pow_eq_pow hvw]

theorem IsTorsion.pow_mul_pow (h : x.IsTorsion) (v w : Exponent) : x ^ v * x ^ w = x ^ (v + w) := by
  apply ext_residue (mul_lt _ _) (pow_lt _ _)
  rw [residue_mul, residue_pow, residue_pow, residue_pow, ← pow_add]
  exact h.pow_eq_pow (by simpa [Exponent.residue] using (Exponent.residue_add v w).symm)

theorem IsTorsion.pow_pow (h : x.IsTorsion) (v w : Exponent) : (x ^ v) ^ w = x ^ (v * w) := by
  apply ext_residue (pow_lt _ _) (pow_lt _ _)
  rw [residue_pow, residue_pow, residue_pow, ← pow_mul]
  exact h.pow_eq_pow (by simpa [Exponent.residue] using (Exponent.residue_mul v w).symm)

theorem IsTorsion.prod_pow (h : x.IsTorsion) (ws : List Exponent) :
    prod (ws.map (x ^ ·)) = x ^ Exponent.sum ws := by
  apply ext_residue (prod_lt _) (pow_lt _ _)
  rw [residue_prod, residue_pow, List.map_map]
  have hprod : (ws.map (residue ∘ (x ^ ·))).prod = x.residue ^ (ws.map Exponent.val).sum := by
    induction ws with
    | nil => simp
    | cons w ws ih => simp [ih, pow_add]
  rw [hprod]
  apply h.pow_eq_pow
  rw [Nat.cast_list_sum, List.map_map]
  exact (Exponent.residue_sum ws).symm

end Element

theorem generator_isTorsion : Element.generator.IsTorsion := by
  have hsquare : Element.generator.residue = 2 ^ 2 := by
    simp only [Element.residue, Element.generator]
    norm_num
  rw [Element.IsTorsion, hsquare, ← pow_mul, mul_comm, pow_mul, two_pow_order, one_pow]

theorem genPow_zero : genPow .zero = .one := by
  rw [genPow, Element.pow_def]
  rfl

theorem genPow_congr {v w : Exponent} (h : v.residue = w.residue) : genPow v = genPow w :=
  generator_isTorsion.pow_congr h

theorem genPow_mul_genPow (v w : Exponent) : genPow v * genPow w = genPow (v + w) :=
  generator_isTorsion.pow_mul_pow v w

theorem genPow_pow (v w : Exponent) : genPow v ^ w = genPow (v * w) :=
  generator_isTorsion.pow_pow v w

theorem prod_genPow (ws : List Exponent) :
    Element.prod (ws.map genPow) = genPow (Exponent.sum ws) :=
  generator_isTorsion.prod_pow ws

theorem isTorsion_genPow (w : Exponent) : (genPow w).IsTorsion := generator_isTorsion.pow w

theorem isResidue_genPow (w : Exponent) : (genPow w).isResidue = true :=
  generator_isTorsion.isResidue_pow w

theorem isPrimitiveRoot_generator : IsPrimitiveRoot Element.generator.residue order := by
  have hne : Element.generator.residue ≠ 1 := by
    intro h
    have hwide := pow_add_pow_lt_order
    have heq := modulus_eq
    have hthree : ((3 : ℕ) : ZMod modulus) ≠ 0 := natCast_modulus_ne_zero (by omega) (by omega)
    simp only [Element.residue, Element.generator] at h
    push_cast at h hthree
    exact hthree (by linear_combination h)
  rw [← orderOf_eq_prime generator_isTorsion hne]
  exact IsPrimitiveRoot.orderOf _

theorem genPow_inj {v w : Exponent} : genPow v = genPow w ↔ v.residue = w.residue := by
  constructor
  · intro h
    have hpow := congrArg Element.residue h
    rw [genPow, genPow, Element.residue_pow, Element.residue_pow, ← generator_isTorsion.pow_mod,
      ← generator_isTorsion.pow_mod w.val] at hpow
    have hmod := isPrimitiveRoot_generator.pow_inj (Exponent.mod_order_lt _)
      (Exponent.mod_order_lt _) hpow
    exact (ZMod.natCast_eq_natCast_iff' _ _ _).2 hmod
  · exact genPow_congr

/-- Every element of the subgroup is a power of the generator. -/
theorem exists_genPow {x : Element} (h : x.isResidue = true) : ∃ w, x = genPow w := by
  obtain ⟨hlt, htor⟩ := Element.isResidue_iff.1 h
  obtain ⟨n, -, hn⟩ := isPrimitiveRoot_generator.eq_pow_of_pow_eq_one htor
  refine ⟨⟨n⟩, Element.ext_residue hlt (Element.pow_lt _ _) ?_⟩
  rw [← hn, genPow, Element.residue_pow]

theorem exists_genPow_lt {x : Element} (h : x.isResidue = true) :
    ∃ w, w.val < order ∧ x = genPow w := by
  obtain ⟨w, rfl⟩ := exists_genPow h
  exact ⟨.ofNat w.val, Exponent.mod_order_lt _, genPow_congr (Exponent.residue_ofNat _).symm⟩

end ThresholdElGamal
