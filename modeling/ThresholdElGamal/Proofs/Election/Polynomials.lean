import ThresholdElGamal.Election.Dealer
import ThresholdElGamal.Proofs.Group.Interpolation

/-! # Shares of the joint polynomial

The coefficients of all guardians add up to one polynomial modulo `q`. Key shares are its values
at the coordinates, the secret key is its value at zero, and a roster that commits to the
coefficients publishes both in the exponent of the generator.
-/

namespace ThresholdElGamal

open Polynomial

noncomputable section

/-- The polynomial with the given coefficients, the constant one first. -/
def polynomial : List Exponent → (ZMod order)[X]
  | [] => 0
  | a :: as => C a.residue + X * polynomial as

/-- The sum of the polynomials of all guardians. -/
def jointPolynomial (coefficients : List (List Exponent)) : (ZMod order)[X] :=
  (coefficients.map polynomial).sum

end

theorem degree_polynomial_lt (as : List Exponent) : (polynomial as).degree < as.length := by
  induction as with
  | nil => simp [polynomial]
  | cons a as ih =>
    rw [degree_lt_iff_coeff_zero] at ih ⊢
    intro n hn
    cases n with
    | zero => simp at hn
    | succ n => simpa [polynomial, coeff_C] using ih n (by simpa using hn)

variable {coefficients : List (List Exponent)} {k : ℕ}

theorem degree_jointPolynomial_lt (h : ∀ as ∈ coefficients, as.length ≤ k) :
    (jointPolynomial coefficients).degree < k := by
  rw [← mem_degreeLT]
  apply list_sum_mem
  simp only [List.forall_mem_map]
  intro as has
  rw [mem_degreeLT]
  exact (degree_polynomial_lt as).trans_le (by exact_mod_cast h as has)

namespace Dealer

theorem residue_addPolynomial (x power share : Exponent) (as : List Exponent) :
    (addPolynomial x power share as).residue =
      share.residue + power.residue * (polynomial as).eval x.residue := by
  induction as generalizing power share with
  | nil => simp [addPolynomial, polynomial]
  | cons a as ih =>
    simp only [addPolynomial, polynomial, ih, Exponent.residue_add, Exponent.residue_mul, eval_add,
      eval_mul, eval_C, eval_X]
    ring

theorem residue_foldl_addPolynomial (x share : Exponent) (rows : List (List Exponent)) :
    (rows.foldl (addPolynomial x .one) share).residue =
      share.residue + (jointPolynomial rows).eval x.residue := by
  induction rows generalizing share with
  | nil => simp [jointPolynomial]
  | cons as rows ih =>
    simp only [List.foldl_cons, ih, residue_addPolynomial, jointPolynomial, List.map_cons,
      List.sum_cons, eval_add, Exponent.residue_one]
    ring

theorem residue_sum_addPolynomial (x : Exponent) (rows : List (List Exponent)) :
    (Exponent.sum (rows.map (addPolynomial x .one .zero))).residue =
      (jointPolynomial rows).eval x.residue := by
  rw [Exponent.residue_sum, jointPolynomial]
  induction rows with
  | nil => simp
  | cons as rows ih => simpa [residue_addPolynomial] using ih

theorem residue_keyShare (coefficients : List (List Exponent)) (x : UInt32) :
    (keyShare coefficients x).residue = (jointPolynomial coefficients).eval (node x) := by
  simp [keyShare, residue_foldl_addPolynomial, node]

theorem residue_secretKey (coefficients : List (List Exponent)) :
    (secretKey coefficients).residue = (jointPolynomial coefficients).eval 0 := by
  simp only [secretKey, Exponent.residue_sum, jointPolynomial]
  induction coefficients with
  | nil => simp
  | cons as rows ih =>
    cases as with
    | nil =>
      rw [List.filterMap_cons_none rfl]
      simpa [polynomial] using ih
    | cons a as => simp [polynomial, ih]

/-- At least as many shares as there are coefficients determine the secret key. -/
theorem sum_weight_keyShare (h : ∀ as ∈ coefficients, as.length ≤ k) {xs : List UInt32}
    (hxs : xs.Nodup) (hk : k ≤ xs.length) :
    (xs.map fun x => (lagrangeWeight x xs).residue * (keyShare coefficients x).residue).sum =
      (secretKey coefficients).residue := by
  simp only [residue_keyShare, residue_secretKey]
  apply sum_weight_eval hxs
  exact (degree_jointPolynomial_lt h).trans_le (by exact_mod_cast hk)

end Dealer

/-- The commitments of the guardians are those to the coefficients, row by row. -/
def Commits (guardians : List Guardian) (coefficients : List (List Exponent)) : Prop :=
  guardians.map (·.commitments) = coefficients.map (·.map genPow)

theorem exists_commits {guardians : List Guardian}
    (h : ∀ g ∈ guardians, ∀ c ∈ g.commitments, c.isResidue = true) :
    ∃ coefficients, Commits guardians coefficients := by
  have hrow : ∀ g ∈ guardians, g.commitments ∈ Set.range (List.map genPow) := by
    intro g hg
    rw [Set.range_list_map]
    intro c hc
    obtain ⟨w, hw⟩ := exists_genPow (h g hg c hc)
    exact ⟨w, hw.symm⟩
  have hrows : guardians.map (·.commitments) ∈ Set.range (List.map (List.map genPow)) := by
    rw [Set.range_list_map]
    simpa using hrow
  obtain ⟨coefficients, hcoefficients⟩ := hrows
  exact ⟨coefficients, hcoefficients.symm⟩

theorem evaluateFrom_genPow (x power share : Exponent) (as : List Exponent) :
    Guardian.evaluateFrom x power (as.map genPow) (genPow share) =
      genPow (Dealer.addPolynomial x power share as) := by
  induction as generalizing power share with
  | nil => rfl
  | cons a as ih =>
    simp only [List.map_cons, Guardian.evaluateFrom, Dealer.addPolynomial, genPow_pow,
      genPow_mul_genPow, ih]

namespace Commits

variable {guardians : List Guardian}

theorem map_commitments {α : Type} (h : Commits guardians coefficients) (f : List Element → α) :
    guardians.map (fun g => f g.commitments) = coefficients.map fun as => f (as.map genPow) := by
  simpa [Function.comp_def] using congrArg (List.map f) h

theorem length_le (h : Commits guardians coefficients)
    (hle : ∀ g ∈ guardians, g.commitments.length ≤ k) : ∀ as ∈ coefficients, as.length ≤ k := by
  intro as has
  have hrow : as.map genPow ∈ guardians.map (·.commitments) := by
    rw [h]
    exact List.mem_map_of_mem has
  obtain ⟨g, hg, hcommitments⟩ := List.mem_map.1 hrow
  have hlength := hle g hg
  rwa [hcommitments, List.length_map] at hlength

theorem jointValue (h : Commits guardians coefficients) (x : UInt32) :
    Roster.jointValue guardians x = genPow (Dealer.keyShare coefficients x) := by
  have hvalues : guardians.map (·.evaluate x) =
      (coefficients.map (Dealer.addPolynomial (.ofNat x.toNat) .one .zero)).map genPow := by
    rw [List.map_map]
    simp only [Function.comp_def, ← evaluateFrom_genPow, genPow_zero]
    exact h.map_commitments fun ks => Guardian.evaluateFrom (.ofNat x.toNat) .one ks .one
  rw [Roster.jointValue, hvalues, prod_genPow]
  apply genPow_congr
  rw [Dealer.residue_sum_addPolynomial, Dealer.residue_keyShare, Exponent.residue_ofNat, node]

theorem jointPublicKey {roster : Roster} (h : Commits roster.guardians coefficients) :
    roster.jointPublicKey = genPow (Dealer.secretKey coefficients) := by
  have hkeys : roster.guardians.filterMap (·.publicKey?) =
      (coefficients.filterMap (·.head?)).map genPow := by
    have hheads := congrArg (List.filterMap id) (h.map_commitments List.head?)
    simpa [List.filterMap_map, List.map_filterMap, Function.comp_def, Guardian.publicKey?]
      using hheads
  rw [Roster.jointPublicKey, hkeys, prod_genPow, Dealer.secretKey]

end Commits

end ThresholdElGamal
