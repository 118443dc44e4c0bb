import ThresholdElGamal.Proofs.Group.Powers

/-! # The subgroup of valid residues

The residue test takes a number as it stands, reduced or not, and accepts exactly the powers of the
generator. Their exponents are distinct below `q`, so the generator has order `q`. What is accepted
is closed under the operations of the group, and there a power depends on the exponent modulo `q`
only.
-/

namespace ThresholdElGamal.Element

variable {x y : Element}

theorem IsTorsion.mul (hx : x.IsTorsion) (hy : y.IsTorsion) : (x * y).IsTorsion := by
  rw [IsTorsion, residue_mul, mul_pow, hx, hy, one_mul]

theorem IsTorsion.powNat (h : x.IsTorsion) (n : ℕ) : (x.powNat n).IsTorsion := h.pow ⟨n⟩

theorem IsTorsion.powNat_congr (h : x.IsTorsion) {m n : ℕ} (hmn : m % order = n % order) :
    x.powNat m = x.powNat n :=
  h.pow_congr (v := ⟨m⟩) (w := ⟨n⟩) ((ZMod.natCast_eq_natCast_iff' _ _ _).2 hmn)

theorem isResidue_mul (hx : x.isResidue = true) (hy : y.isResidue = true) :
    (x * y).isResidue = true :=
  isResidue_iff.2 ⟨mul_lt _ _, (IsTorsion.of_isResidue hx).mul (.of_isResidue hy)⟩

theorem isResidue_powNat (h : x.isResidue = true) (n : ℕ) : (x.powNat n).isResidue = true :=
  isResidue_iff.2 ⟨powNat_lt _ _, (IsTorsion.of_isResidue h).powNat n⟩

theorem isResidue_inverse (h : x.isResidue = true) : x.inverse.isResidue = true :=
  isResidue_powNat h _

theorem isResidue_div (hx : x.isResidue = true) (hy : y.isResidue = true) :
    (x / y).isResidue = true :=
  isResidue_mul hx (isResidue_inverse hy)

theorem mul_inverse (h : x.isResidue = true) : x * x.inverse = one := by
  apply ext_residue (mul_lt _ _) one_lt
  rw [residue_mul, residue_inverse, residue_one,
    mul_inv_cancel₀ (IsTorsion.of_isResidue h).residue_ne_zero]

theorem genPow_mk (e : ℕ) : genPow ⟨e⟩ = ⟨generator.val ^ e % modulus⟩ := pow_def _ _

theorem isResidue_iff_exists_pow :
    x.isResidue = true ↔ ∃ e < order, x.val = generator.val ^ e % modulus := by
  constructor
  · intro h
    obtain ⟨⟨e⟩, he, rfl⟩ := exists_genPow_lt h
    exact ⟨e, he, congrArg val (genPow_mk e)⟩
  · rintro ⟨e, -, he⟩
    have hpower : x = genPow ⟨e⟩ := Element.ext (he.trans (congrArg val (genPow_mk e)).symm)
    rw [hpower]
    exact isResidue_genPow _

theorem injOn_pow_generator :
    Set.InjOn (fun e => generator.val ^ e % modulus) (Set.Iio order) := by
  intro d hd e he h
  have hpowers : genPow ⟨d⟩ = genPow ⟨e⟩ := by
    rw [genPow_mk, genPow_mk]
    exact Element.ext h
  exact congrArg Exponent.val (Exponent.ext_residue hd he (genPow_inj.1 hpowers))

/-- The numbers that pass the residue test are the powers of the generator, one for each exponent
below `q`. They are a group under the operations on elements, and their powers depend on the
exponent modulo `q` only. -/
theorem residues_form_subgroup :
    (∀ x : Element, x.isResidue = true ↔
      ∃ e < order, x.val = generator.val ^ e % modulus) ∧
    Set.InjOn (fun e => generator.val ^ e % modulus) (Set.Iio order) ∧
    (∀ x y : Element, x.isResidue = true → y.isResidue = true →
      (x * y).isResidue = true ∧ (x / y).isResidue = true) ∧
    ∀ x : Element, x.isResidue = true →
      (x.inverse.isResidue = true ∧ x * x.inverse = one) ∧
      (∀ w : Exponent, (x ^ w).isResidue = true) ∧
      (∀ n, (x.powNat n).isResidue = true) ∧
      (∀ v w : Exponent, v.val % order = w.val % order → x ^ v = x ^ w) ∧
      ∀ m n, m % order = n % order → x.powNat m = x.powNat n := by
  refine ⟨fun _ => isResidue_iff_exists_pow, injOn_pow_generator, ?_, ?_⟩
  · intro x y hx hy
    exact ⟨isResidue_mul hx hy, isResidue_div hx hy⟩
  · intro x hx
    have hmod (m n : ℕ) : m % order = n % order → x.powNat m = x.powNat n :=
      (IsTorsion.of_isResidue hx).powNat_congr
    exact ⟨⟨isResidue_inverse hx, mul_inverse hx⟩, fun w => isResidue_powNat hx w.val,
      isResidue_powNat hx, fun v w => hmod v.val w.val, hmod⟩

/-- Sixteen is a residue and so is its quotient by the generator; the exponent of the power is not
reduced. -/
theorem residues_form_subgroup_sixteen :
    (Element.mk 16).isResidue = true ∧ (Element.mk 16 / generator).isResidue = true ∧
      Element.mk 16 ^ (⟨order + 3⟩ : Exponent) = Element.mk 16 ^ (⟨3⟩ : Exponent) := by
  obtain ⟨hiff, -, hclosed, hpowers⟩ := residues_form_subgroup
  have hwide := pow_add_pow_lt_order
  have hgenerator : generator.isResidue = true := (hiff _).2 ⟨1, by omega, by decide⟩
  have hsixteen : (Element.mk 16).isResidue = true := (hiff _).2 ⟨2, by omega, by decide⟩
  refine ⟨hsixteen, (hclosed _ _ hsixteen hgenerator).2, ?_⟩
  exact (hpowers _ hsixteen).2.2.2.1 _ _ (Nat.add_mod_left _ _)

end ThresholdElGamal.Element
