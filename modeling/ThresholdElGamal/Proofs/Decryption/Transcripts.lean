import ThresholdElGamal.Proof.ChaumPedersen
import ThresholdElGamal.Proofs.Group.Powers

/-! # Combined transcripts

Transcripts that accept under single key shares, for weighted challenges, add up to one
transcript under the weighted sum of the shares. In the base of the generator nothing is lost. In
the base of the pad the weighted challenges were reduced modulo `q`, which a contribution outside
the subgroup notices: what is left over is its stray part.
-/

namespace ThresholdElGamal

/-- The product of the contributions to the powers by which the weighted challenges exceed their
residues. -/
def stray (c : Exponent) (contributions : List (Element × Exponent)) : Element :=
  Element.prod (contributions.map fun (m, w) => m.powNat (order * (c.val * w.val / order)))

theorem stray_of_isTorsion {c : Exponent} {contributions : List (Element × Exponent)}
    (h : ∀ mw ∈ contributions, mw.1.IsTorsion) : stray c contributions = .one := by
  unfold stray
  apply Element.ext_residue (Element.prod_lt _) Element.one_lt
  rw [Element.residue_prod, Element.residue_one]
  apply List.prod_eq_one
  simp only [List.map_map, List.mem_map, forall_exists_index, and_imp]
  rintro _ mw hmw rfl
  simp [Element.residue_powNat, pow_mul, show mw.1.residue ^ order = 1 from h mw hmw]

variable {ι : Type} {js : List ι} {v w s : ι → Exponent} {m a b : ι → Element} {c : Exponent}

/-- The transcripts in the base of the generator add up under the secret. -/
theorem genPow_sum_mul {secret : Exponent}
    (hsecret : (js.map fun j => (w j).residue * (s j).residue).sum = secret.residue)
    (haccept : ∀ j ∈ js, genPow (v j) * genPow (s j) ^ (c * w j) = a j) :
    genPow (Exponent.sum (js.map v)) * genPow secret ^ c = Element.prod (js.map a) := by
  have hcommitments : js.map a = (js.map fun j => v j + s j * (c * w j)).map genPow := by
    rw [List.map_map]
    apply List.map_congr_left
    intro j hj
    rw [← haccept j hj, genPow_pow, genPow_mul_genPow]
    rfl
  rw [hcommitments, prod_genPow, genPow_pow, genPow_mul_genPow]
  apply genPow_congr
  simp only [Exponent.residue_add, Exponent.residue_mul, Exponent.residue_sum, ← hsecret,
    List.map_map]
  clear hcommitments haccept hsecret
  induction js with
  | nil => simp
  | cons j js ih =>
    simp only [List.map_cons, List.sum_cons, Function.comp_apply, Exponent.residue_add,
      Exponent.residue_mul, ← ih]
    ring

theorem residue_stray_part (m : Element) (c w : Exponent) :
    (m ^ (c * w)).residue * (m.powNat (order * (c.val * w.val / order))).residue =
      ((m ^ w) ^ c).residue := by
  simp only [Element.residue_pow, Element.residue_powNat, Exponent.mul_def, ← pow_add, ← pow_mul]
  rw [Nat.mod_add_div, mul_comm]

/-- The transcripts in the base of the pad add up but for the stray part. -/
theorem pad_sum_mul {pad : Element} (hpad : pad.IsTorsion)
    (haccept : ∀ j ∈ js, pad ^ v j * m j ^ (c * w j) = b j) :
    pad ^ Exponent.sum (js.map v) * Element.prod (js.map fun j => m j ^ w j) ^ c =
      Element.prod (js.map b) * stray c (js.map fun j => (m j, w j)) := by
  apply Element.ext_residue (Element.mul_lt _ _) (Element.mul_lt _ _)
  unfold stray
  rw [← hpad.prod_pow]
  simp only [Element.residue_mul, Element.residue_pow, Element.residue_prod, List.map_map]
  induction js with
  | nil => simp
  | cons j js ih =>
    have htail := ih fun i hi => haccept i (List.mem_cons_of_mem _ hi)
    have hhead := residue_stray_part (m j) c (w j)
    simp only [List.map_cons, List.prod_cons, Function.comp_apply, mul_pow] at htail ⊢
    rw [← haccept j List.mem_cons_self, Element.residue_mul, mul_mul_mul_comm, htail]
    rw [Element.residue_pow (m j ^ w j)] at hhead
    rw [← hhead]
    ring

end ThresholdElGamal
