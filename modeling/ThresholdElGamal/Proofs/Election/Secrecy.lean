import ThresholdElGamal.Proofs.Election.Polynomials

/-! # What shares below the quorum leave open

A polynomial that vanishes at fewer coordinates than a row has coefficients can be added to the row
without a change of the shares there, and it can take any value at zero. So whatever a coalition
below the quorum holds, every secret key is that of a dealing with the same shares.
-/

namespace ThresholdElGamal

open Polynomial

theorem exists_row {k : ℕ} {f : (ZMod order)[X]} (hdeg : f.degree < k) :
    ∃ as : List Exponent, as.length = k ∧ (∀ a ∈ as, a.val < order) ∧ polynomial as = f := by
  induction k generalizing f with
  | zero =>
    have hzero : f = 0 := by simpa using hdeg
    exact ⟨[], rfl, by simp, hzero.symm⟩
  | succ k ih =>
    have hdiv : f.divX.degree < k := by
      rw [degree_lt_iff_coeff_zero] at hdeg ⊢
      intro n hn
      rw [coeff_divX]
      exact hdeg _ (Nat.add_le_add_right hn 1)
    obtain ⟨as, hlength, hreduced, has⟩ := ih hdiv
    obtain ⟨a, ha, hresidue⟩ := Exponent.exists_residue_eq (f.coeff 0)
    refine ⟨a :: as, by simp [hlength], List.forall_mem_cons.2 ⟨ha, hreduced⟩, ?_⟩
    rw [polynomial, has, hresidue, add_comm, X_mul_divX_add]

theorem node_ne_zero {x : UInt32} (hx : x ≠ 0) : node x ≠ 0 := by
  intro h
  apply hx
  apply node_injective
  rw [h]
  exact Nat.cast_zero.symm

/-- Below the degree, values at nonzero coordinates do not bound the value at zero. -/
theorem exists_vanishing {xs : Finset UInt32} (hxs : 0 ∉ xs) {k : ℕ} (hcard : xs.card < k)
    (z : ZMod order) :
    ∃ f : (ZMod order)[X], f.degree < k ∧ (∀ x ∈ xs, f.eval (node x) = 0) ∧ f.eval 0 = z := by
  have hzero : (Lagrange.nodal xs node).eval 0 ≠ 0 := by
    rw [Lagrange.eval_nodal, Finset.prod_ne_zero_iff]
    intro x hx
    rw [zero_sub]
    exact neg_ne_zero.2 (node_ne_zero fun h => hxs (h ▸ hx))
  refine ⟨(z / (Lagrange.nodal xs node).eval 0) • Lagrange.nodal xs node, ?_, ?_, ?_⟩
  · refine (degree_smul_le _ _).trans_lt ?_
    rw [Lagrange.degree_nodal]
    exact_mod_cast hcard
  · intro x hx
    rw [eval_smul, Lagrange.eval_nodal_at_node hx, smul_zero]
  · rw [eval_smul, smul_eq_mul, div_mul_cancel₀ _ hzero]

namespace Dealer

theorem addPolynomial_lt (x power : Exponent) {share : Exponent} (hshare : share.val < order)
    (as : List Exponent) : (addPolynomial x power share as).val < order := by
  induction as generalizing power share with
  | nil => exact hshare
  | cons a as ih => exact ih _ (Exponent.mod_order_lt _)

theorem keyShare_lt (rows : List (List Exponent)) (x : UInt32) : (keyShare rows x).val < order :=
  Exponent.foldl_lt (fun _ as hshare => addPolynomial_lt _ _ hshare as) rows
    (Nat.Prime.pos order_prime)

theorem secretKey_lt (rows : List (List Exponent)) : (secretKey rows).val < order :=
  Exponent.sum_lt _

variable {rows : List (List Exponent)} {k : ℕ}

/-- Fewer coordinates than coefficients leave the secret key open: every candidate is the secret key
of a dealing of the same dimensions with the same shares there. -/
theorem exists_rows_of_candidate (hrows : rows ≠ []) (hlength : ∀ as ∈ rows, as.length = k)
    (hreduced : ∀ as ∈ rows, ∀ a ∈ as, a.val < order) {xs : Finset UInt32} (hxs : 0 ∉ xs)
    (hcard : xs.card < k) {candidate : Exponent} (hcandidate : candidate.val < order) :
    ∃ rows' : List (List Exponent), rows'.length = rows.length ∧
      (∀ as ∈ rows', as.length = k ∧ ∀ a ∈ as, a.val < order) ∧
      (∀ x ∈ xs, keyShare rows' x = keyShare rows x) ∧ secretKey rows' = candidate := by
  obtain ⟨as, rows, rfl⟩ := List.exists_cons_of_ne_nil hrows
  rw [List.forall_mem_cons] at hlength hreduced
  obtain ⟨f, hdeg, hshares, hsecret⟩ :=
    exists_vanishing hxs hcard (candidate.residue - (secretKey (as :: rows)).residue)
  have hsum : (polynomial as + f).degree < k := by
    refine (degree_add_le _ _).trans_lt (max_lt ?_ hdeg)
    rw [← hlength.1]
    exact degree_polynomial_lt as
  obtain ⟨bs, hbs, hbsreduced, hpolynomial⟩ := exists_row hsum
  have hjoint : jointPolynomial (bs :: rows) = jointPolynomial (as :: rows) + f := by
    simp only [jointPolynomial, List.map_cons, List.sum_cons, hpolynomial]
    ring
  refine ⟨bs :: rows, rfl, List.forall_mem_cons.2 ⟨⟨hbs, hbsreduced⟩, ?_⟩, ?_, ?_⟩
  · exact fun cs hcs => ⟨hlength.2 cs hcs, hreduced.2 cs hcs⟩
  · intro x hx
    apply Exponent.ext_residue (keyShare_lt _ _) (keyShare_lt _ _)
    rw [residue_keyShare, residue_keyShare, hjoint, eval_add, hshares x hx, add_zero]
  · apply Exponent.ext_residue (secretKey_lt _) hcandidate
    rw [residue_secretKey, hjoint, eval_add, hsecret, ← residue_secretKey]
    ring

/-- One of two guardians learns nothing about the secret key of two rows. -/
theorem exists_rows_of_candidate_one_of_two :
    (∀ as ∈ ([[⟨3⟩, ⟨5⟩], [⟨7⟩, ⟨11⟩]] : List (List Exponent)), ∀ a ∈ as, a.val < order) ∧
    ∃ rows' : List (List Exponent), rows'.length = 2 ∧
      (∀ as ∈ rows', as.length = 2 ∧ ∀ a ∈ as, a.val < order) ∧
      keyShare rows' 1 = keyShare [[⟨3⟩, ⟨5⟩], [⟨7⟩, ⟨11⟩]] 1 ∧ secretKey rows' = ⟨9⟩ := by
  have hreduced : ∀ as ∈ ([[⟨3⟩, ⟨5⟩], [⟨7⟩, ⟨11⟩]] : List (List Exponent)), ∀ a ∈ as,
      a.val < order := by decide
  have hcoalition : 0 ∉ ({1} : Finset UInt32) := by decide
  have hcandidate : (⟨9⟩ : Exponent).val < order := by decide
  obtain ⟨rows', hlength, hrows, hshares, hsecret⟩ :=
    exists_rows_of_candidate (by decide) (by decide) hreduced hcoalition Nat.one_lt_two hcandidate
  exact ⟨hreduced, rows', hlength, hrows, hshares 1 (Finset.mem_singleton_self 1), hsecret⟩

end Dealer

end ThresholdElGamal
