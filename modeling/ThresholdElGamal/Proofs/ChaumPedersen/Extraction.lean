import ThresholdElGamal.Proof.ChaumPedersen
import ThresholdElGamal.Proofs.Group.Powers

/-! # What two proofs with the same commitments show

Two proofs with different challenges that recompute the same commitments determine the exponent
behind the public key. They tie the mask to that power of the pad only as far as exponents below
`q` can tell: nothing asks the mask to lie in the subgroup, so the negative of the power passes for
challenges of one parity, and zero passes for challenges that are not zero.
-/

namespace ThresholdElGamal

theorem neg_one_ne_one_modulus : (-1 : ZMod modulus) ≠ 1 := by
  have hwide := pow_add_pow_lt_order
  have heq := modulus_eq
  have htwo : ((2 : ℕ) : ZMod modulus) ≠ 0 := natCast_modulus_ne_zero (by omega) (by omega)
  intro h
  exact htwo (by push_cast; linear_combination -h)

namespace Element

variable {x y : Element}

/-- The order of the subgroup is odd, so no element of it is the negative of another. -/
theorem IsTorsion.ne_neg (hx : x.IsTorsion) (hy : y.IsTorsion) : x.residue ≠ -y.residue := by
  have hwide := pow_add_pow_lt_order
  have hodd : Odd order := Nat.Prime.odd_of_ne_two order_prime (by omega)
  intro h
  rw [IsTorsion, h, hodd.neg_pow, hy] at hx
  exact neg_one_ne_one_modulus hx

end Element

section Field

variable {m x : ZMod modulus} {c c' d : ℕ}

theorem pow_eq_pow_iff_of_lt_order (hx : x ≠ 0) (hpos : 0 < d) (hlt : d < order) :
    m ^ d = x ^ d ↔ m = x ∨ m = -x ∧ Even d := by
  constructor
  · intro h
    have hm : m ≠ 0 := by
      rintro rfl
      rw [zero_pow (by omega)] at h
      exact pow_ne_zero _ hx h.symm
    have hratio : (m / x) ^ d = 1 := by rw [div_pow, h, div_self (pow_ne_zero _ hx)]
    have hsquare : ((m / x) ^ 2) ^ d = 1 := by rw [← pow_mul, mul_comm, pow_mul, hratio, one_pow]
    have horder : ((m / x) ^ 2) ^ order = 1 := by
      have heq := modulus_eq
      rw [← pow_mul, show 2 * order = modulus - 1 by omega]
      exact ZMod.pow_card_sub_one_eq_one (div_ne_zero hm hx)
    -- the order of the square divides both exponents, and these are coprime
    have hcoprime : Nat.gcd d order = 1 :=
      (Nat.coprime_of_lt_prime (by omega) hlt order_prime).symm
    have hdvd := Nat.dvd_gcd (orderOf_dvd_of_pow_eq_one hsquare) (orderOf_dvd_of_pow_eq_one horder)
    rw [hcoprime, Nat.dvd_one, orderOf_eq_one_iff, sq, mul_self_eq_one_iff] at hdvd
    rcases hdvd with hone | hneg
    · exact Or.inl ((div_eq_one_iff_eq hx).1 hone)
    · rw [hneg, neg_one_pow_eq_one_iff_even neg_one_ne_one_modulus] at hratio
      rw [div_eq_iff hx, neg_one_mul] at hneg
      exact Or.inr ⟨hneg, hratio⟩
  · rintro (rfl | ⟨rfl, heven⟩)
    · rfl
    · exact heven.neg_pow x

theorem crossed_powers_eq_iff (hx : x ≠ 0) (hc : c < order) (hc' : c' < order) (hne : c ≠ c') :
    x ^ c' * m ^ c = x ^ c * m ^ c' ↔
      m = x ∨ m = -x ∧ c % 2 = c' % 2 ∨ m = 0 ∧ c ≠ 0 ∧ c' ≠ 0 := by
  wlog hlt : c < c' generalizing c c'
  · rw [eq_comm, this hc' hc hne.symm (by omega), eq_comm (a := c % 2), and_comm (a := c ≠ 0)]
  obtain ⟨d, rfl⟩ := Nat.exists_eq_add_of_lt hlt
  have hparity : c % 2 = (c + d + 1) % 2 ↔ Even (d + 1) := by
    rw [Nat.even_iff]
    omega
  have hpow : x ^ (c + d + 1) * m ^ c = x ^ c * m ^ (c + d + 1) ↔
      m ^ c = 0 ∨ m ^ (d + 1) = x ^ (d + 1) := by
    have hxc : x ^ c ≠ 0 := pow_ne_zero _ hx
    rw [add_assoc, pow_add x c, pow_add m c, mul_assoc, mul_right_inj' hxc, mul_comm, eq_comm,
      mul_eq_mul_left_iff, or_comm]
  rw [hpow, pow_eq_pow_iff_of_lt_order hx (by omega) (by omega), pow_eq_zero_iff', hparity]
  tauto

end Field

namespace ChaumPedersenProof

variable {publicKey pad mask : Element} {proof other : ChaumPedersenProof} {s : Exponent}

/-- Both proofs respond as the exponent would to the same nonce. -/
def AnswerAlike (proof other : ChaumPedersenProof) (s : Exponent) : Prop :=
  proof.response.residue + s.residue * proof.challenge.residue =
    other.response.residue + s.residue * other.challenge.residue

/-- The masks that two proofs do not tell from a power of the pad. -/
def Admit (proof other : ChaumPedersenProof) (power mask : Element) : Prop :=
  mask.residue = power.residue ∨
    mask.residue = -power.residue ∧ proof.challenge.val % 2 = other.challenge.val % 2 ∨
    mask.residue = 0 ∧ proof.challenge.val ≠ 0 ∧ other.challenge.val ≠ 0

theorem first_commitments_eq_iff :
    (proof.commitments (genPow s) pad mask).1 = (other.commitments (genPow s) pad mask).1 ↔
      proof.AnswerAlike other s := by
  simp only [commitments, genPow_pow, genPow_mul_genPow, genPow_inj, Exponent.residue_add,
    Exponent.residue_mul, AnswerAlike]

/-- If the responses are alike, the commitments in the base of the pad compare crossed powers of
the mask and of the power of the pad. -/
theorem second_commitments_eq_iff (hpad : pad.IsTorsion) (hanswers : proof.AnswerAlike other s) :
    (proof.commitments publicKey pad mask).2 = (other.commitments publicKey pad mask).2 ↔
      (pad ^ s).residue ^ other.challenge.val * mask.residue ^ proof.challenge.val =
        (pad ^ s).residue ^ proof.challenge.val * mask.residue ^ other.challenge.val := by
  have hbase : pad.residue ^ other.response.val ≠ 0 := pow_ne_zero _ hpad.residue_ne_zero
  have hpower : (pad ^ s).residue ^ proof.challenge.val ≠ 0 :=
    pow_ne_zero _ (hpad.pow s).residue_ne_zero
  have hpowers : pad.residue ^ proof.response.val * (pad ^ s).residue ^ proof.challenge.val =
      pad.residue ^ other.response.val * (pad ^ s).residue ^ other.challenge.val := by
    rw [Element.residue_pow, ← pow_mul, ← pow_mul, ← pow_add, ← pow_add]
    apply hpad.pow_eq_pow
    simpa [Exponent.residue, AnswerAlike] using hanswers
  have hvalues : (proof.commitments publicKey pad mask).2 =
      (other.commitments publicKey pad mask).2 ↔
        pad.residue ^ proof.response.val * mask.residue ^ proof.challenge.val =
          pad.residue ^ other.response.val * mask.residue ^ other.challenge.val := by
    simp only [commitments, ← Element.residue_pow, ← Element.residue_mul]
    exact ⟨congrArg _, Element.ext_residue (Element.mul_lt _ _) (Element.mul_lt _ _)⟩
  have hleft : (pad ^ s).residue ^ proof.challenge.val *
      (pad.residue ^ proof.response.val * mask.residue ^ proof.challenge.val) =
        pad.residue ^ other.response.val *
          ((pad ^ s).residue ^ other.challenge.val * mask.residue ^ proof.challenge.val) := by
    rw [← mul_assoc, mul_comm (_ ^ proof.challenge.val), hpowers, mul_assoc]
  have hright : (pad ^ s).residue ^ proof.challenge.val *
      (pad.residue ^ other.response.val * mask.residue ^ other.challenge.val) =
        pad.residue ^ other.response.val *
          ((pad ^ s).residue ^ proof.challenge.val * mask.residue ^ other.challenge.val) :=
    mul_left_comm _ _ _
  rw [hvalues, ← mul_right_inj' hpower, hleft, hright, mul_right_inj' hbase]

theorem Admit.eq_of_isResidue {power : Element} (h : proof.Admit other power mask)
    (hpower : power.isResidue = true) (hmask : mask.isResidue = true) : mask = power := by
  have htorsion := Element.IsTorsion.of_isResidue hmask
  rcases h with heq | ⟨hneg, -⟩ | ⟨hzero, -⟩
  · exact Element.ext_residue (Element.isResidue_iff.1 hmask).1 (Element.isResidue_iff.1 hpower).1
      heq
  · exact absurd hneg (htorsion.ne_neg (.of_isResidue hpower))
  · exact absurd hzero htorsion.residue_ne_zero

section Extraction

variable (hkey : publicKey.isResidue = true) (hpad : pad.isResidue = true)
  (hproof : proof.challenge.val < order) (hother : other.challenge.val < order)
  (hne : proof.challenge ≠ other.challenge)
include hkey hpad hproof hother hne

theorem commitments_eq_iff :
    proof.commitments publicKey pad mask = other.commitments publicKey pad mask ↔
      ∃ s : Exponent, s.val < order ∧ publicKey = genPow s ∧ proof.AnswerAlike other s ∧
        proof.Admit other (pad ^ s) mask := by
  have htorsion := Element.IsTorsion.of_isResidue hpad
  have hchallenges : proof.challenge.val ≠ other.challenge.val := fun h => hne (Exponent.ext h)
  have hmask (s : Exponent) := crossed_powers_eq_iff (m := mask.residue)
    (htorsion.pow s).residue_ne_zero hproof hother hchallenges
  constructor
  · intro h
    obtain ⟨s, hs, rfl⟩ := exists_genPow_lt hkey
    have hanswers := first_commitments_eq_iff.1 (congrArg Prod.fst h)
    refine ⟨s, hs, rfl, hanswers, (hmask s).1 ?_⟩
    exact (second_commitments_eq_iff htorsion hanswers).1 (congrArg Prod.snd h)
  · rintro ⟨s, -, rfl, hanswers, hadmit⟩
    exact Prod.ext (first_commitments_eq_iff.2 hanswers)
      ((second_commitments_eq_iff htorsion hanswers).2 ((hmask s).2 hadmit))

/-- Proofs with different challenges recompute the same commitments exactly when both answer for
the exponent behind the public key and the mask is one that they do not tell from that power of the
pad. A mask in the subgroup is that power. -/
theorem special_soundness :
    (proof.commitments publicKey pad mask = other.commitments publicKey pad mask ↔
      ∃ s : Exponent, s.val < order ∧ publicKey = genPow s ∧ proof.AnswerAlike other s ∧
        proof.Admit other (pad ^ s) mask) ∧
    (mask.isResidue = true →
      proof.commitments publicKey pad mask = other.commitments publicKey pad mask →
        ∃ s : Exponent, s.val < order ∧ publicKey = genPow s ∧ mask = pad ^ s) := by
  refine ⟨commitments_eq_iff hkey hpad hproof hother hne, ?_⟩
  intro hmask h
  obtain ⟨s, hs, hs', -, hadmit⟩ := (commitments_eq_iff hkey hpad hproof hother hne).1 h
  have hpower := (Element.IsTorsion.of_isResidue hpad).isResidue_pow s
  exact ⟨s, hs, hs', hadmit.eq_of_isResidue hpower hmask⟩

end Extraction

theorem special_soundness_generator :
    ∃ s : Exponent, s.val < order ∧ genPow .one = genPow s ∧ genPow .one = genPow .one ^ s := by
  have hone : Exponent.one.val < order := Nat.Prime.one_lt order_prime
  have hzero : Exponent.zero.val < order := Nat.Prime.pos order_prime
  obtain ⟨hiff, hextract⟩ := @special_soundness (genPow .one) (genPow .one) (genPow .one)
    ⟨.zero, .one⟩ ⟨.one, .zero⟩ (isResidue_genPow .one) (isResidue_genPow .one) hzero hone
      (by decide)
  refine hextract (isResidue_genPow .one) (hiff.2 ⟨.one, hone, rfl, ?_, Or.inl ?_⟩)
  · simp [AnswerAlike]
  · rw [genPow_pow]
    exact congrArg _ (genPow_congr (by simp))

/-- For the challenges zero and two, minus four passes for the first power of four. -/
theorem not_special_soundness :
    (ChaumPedersenProof.mk .zero ⟨2⟩).commitments (genPow .one) (genPow .one) ⟨modulus - 4⟩ =
        (ChaumPedersenProof.mk ⟨2⟩ .zero).commitments (genPow .one) (genPow .one) ⟨modulus - 4⟩ ∧
      ¬ ∃ s : Exponent, s.val < order ∧ genPow .one = genPow s ∧
        ⟨modulus - 4⟩ = genPow .one ^ s := by
  have hwide := pow_add_pow_lt_order
  have heq := modulus_eq
  have hneg : (Element.mk (modulus - 4)).residue = -(genPow .one ^ Exponent.one).residue := by
    rw [genPow, Element.residue_pow, Element.residue_pow, Element.residue,
      Nat.cast_sub (by omega), ZMod.natCast_self, zero_sub]
    simp [Element.residue, Element.generator, Exponent.one]
  constructor
  · refine (commitments_eq_iff (isResidue_genPow .one) (isResidue_genPow .one)
      (Nat.Prime.pos order_prime) ?_ (by decide)).2
        ⟨.one, Nat.Prime.one_lt order_prime, rfl, ?_, Or.inr (Or.inl ⟨hneg, rfl⟩)⟩
    · change 2 < order
      omega
    · simp [AnswerAlike]
  · rintro ⟨s, -, -, hs⟩
    have htorsion := isTorsion_genPow .one
    have hpower := congrArg Element.residue hs
    rw [hneg] at hpower
    exact (htorsion.pow s).ne_neg (htorsion.pow .one) hpower.symm

end ChaumPedersenProof

end ThresholdElGamal
