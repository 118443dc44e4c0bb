import Mathlib.Data.Set.Card
import ThresholdElGamal.Proofs.Bytes.BigEndian
import ThresholdElGamal.Proofs.Group.Powers
import ThresholdElGamal.Trustee.KeyHolder

/-! # What a response leaves open

A response fits a candidate for the key share when the nonce that would explain it under the
candidate is one that a digest can stand for. Digests are numbers below `2 ^ 256`, far below `q`,
so unless the challenge vanishes only that many candidates stay open.
-/

namespace ThresholdElGamal

namespace Digest

theorem toNat_bytes_lt (h : Digest) : h.bytes.toNat < 2 ^ 256 := by
  have hlt := Bytes.toNat_lt h.bytes
  rwa [h.length_bytes, show 256 ^ 32 = 2 ^ 256 by norm_num] at hlt

theorem val_toExponent (h : Digest) : h.toExponent.val = h.bytes.toNat :=
  Nat.mod_eq_of_lt (h.toNat_bytes_lt.trans ((Nat.le_add_left _ _).trans_lt pow_add_pow_lt_order))

theorem toExponent_lt (h : Digest) : h.toExponent.val < order := Exponent.mod_order_lt _

/-- The exponents that digests stand for are those below `2 ^ 256`. -/
theorem exists_toExponent_eq {w : Exponent} :
    (∃ h : Digest, h.toExponent = w) ↔ w.val < 2 ^ 256 := by
  constructor
  · rintro ⟨h, rfl⟩
    rw [val_toExponent]
    exact h.toNat_bytes_lt
  · intro hw
    obtain ⟨bytes, hlength, htoNat⟩ := Bytes.exists_toNat_eq (w := 32) (n := w.val)
      (by rwa [show 256 ^ 32 = 2 ^ 256 by norm_num])
    refine ⟨⟨bytes, hlength⟩, Exponent.ext ?_⟩
    rw [val_toExponent, htoNat]

end Digest

namespace Exponent

variable {share nonce challenge response candidate other : Exponent}

/-- A digest stands for the nonce that leads to the response if the candidate is the share. -/
def Explains (candidate challenge response : Exponent) : Prop :=
  ∃ h : Digest, h.toExponent = response + challenge * candidate

theorem explains_iff :
    candidate.Explains challenge response ↔ (response + challenge * candidate).val < 2 ^ 256 :=
  Digest.exists_toExponent_eq

theorem add_lt (v w : Exponent) : (v + w).val < order := mod_order_lt _

theorem exists_candidate (hchallenge : challenge.residue ≠ 0) (response : Exponent) {m : ℕ}
    (hm : m < order) :
    ∃ candidate : Exponent, candidate.val < order ∧
      (response + challenge * candidate).val = m := by
  obtain ⟨candidate, hlt, hcandidate⟩ :=
    exists_residue_eq ((residue ⟨m⟩ - response.residue) / challenge.residue)
  refine ⟨candidate, hlt, ?_⟩
  suffices h : response + challenge * candidate = ⟨m⟩ from congrArg val h
  apply ext_residue (add_lt _ _) hm
  rw [residue_add, residue_mul, hcandidate, mul_div_cancel₀ _ hchallenge, add_sub_cancel]

theorem candidate_unique (hchallenge : challenge.residue ≠ 0) (hcandidate : candidate.val < order)
    (hother : other.val < order)
    (h : (response + challenge * candidate).val = (response + challenge * other).val) :
    candidate = other := by
  apply ext_residue hcandidate hother
  have hresidue := congrArg residue (Exponent.ext h)
  rw [residue_add, residue_mul, residue_add, residue_mul] at hresidue
  exact mul_left_cancel₀ hchallenge (add_left_cancel hresidue)

theorem ncard_explains (hchallenge : challenge.residue ≠ 0) (response : Exponent) :
    {candidate : Exponent | candidate.val < order ∧
      candidate.Explains challenge response}.ncard = 2 ^ 256 := by
  have hrange := Set.ncard_coe_finset (Finset.range (2 ^ 256))
  rw [Finset.card_range] at hrange
  rw [← hrange]
  apply Set.ncard_congr fun candidate _ => (response + challenge * candidate).val
  · rintro candidate ⟨-, hexplains⟩
    exact Finset.mem_coe.2 (Finset.mem_range.2 (explains_iff.1 hexplains))
  · rintro candidate other ⟨hcandidate, -⟩ ⟨hother, -⟩ h
    exact candidate_unique hchallenge hcandidate hother h
  · intro m hm
    have hlt := Finset.mem_range.1 (Finset.mem_coe.1 hm)
    obtain ⟨candidate, hcandidate, hval⟩ := exists_candidate hchallenge response
      (hlt.trans ((Nat.le_add_left _ _).trans_lt pow_add_pow_lt_order))
    exact ⟨candidate, ⟨hcandidate, explains_iff.2 (hval ▸ hlt)⟩, hval⟩

end Exponent

open Exponent

/-- A response fits the candidates whose nonce is below `2 ^ 256`. These are all candidates only
when the challenge vanishes, and `2 ^ 256` of the `q` candidates otherwise. -/
theorem explains_respond (n : Nonces) (index : UInt32) (share challenge : Exponent) :
    (∀ candidate : Exponent,
      candidate.Explains challenge (share.respond (n.get index) challenge) ↔
        (share.respond (n.get index) challenge + challenge * candidate).val < 2 ^ 256) ∧
    ((∀ candidate : Exponent, candidate.val < order →
      candidate.Explains challenge (share.respond (n.get index) challenge)) ↔
        order ∣ challenge.val) ∧
    (¬ order ∣ challenge.val →
      {candidate : Exponent | candidate.val < order ∧
        candidate.Explains challenge (share.respond (n.get index) challenge)}.ncard = 2 ^ 256) := by
  refine ⟨fun _ => explains_iff, ⟨?_, ?_⟩, ?_⟩
  · intro hall
    by_contra hdvd
    have hchallenge := mt residue_eq_zero_iff.1 hdvd
    obtain ⟨candidate, hlt, hval⟩ := exists_candidate hchallenge
      (share.respond (n.get index) challenge) ((Nat.le_add_left _ _).trans_lt pow_add_pow_lt_order)
    exact (hval ▸ explains_iff.1 (hall candidate hlt)).false
  · intro hdvd candidate _
    refine ⟨Field.hash n.seed.bytes (n.input index), ?_⟩
    apply ext_residue (Digest.toExponent_lt _) (add_lt _ _)
    rw [residue_add, residue_mul, respond, residue_sub_mul, residue_eq_zero_iff.2 hdvd,
      zero_mul, zero_mul, sub_zero, add_zero]
    rfl
  · intro hdvd
    exact ncard_explains (mt residue_eq_zero_iff.1 hdvd) _

/-- The nonce that explains the response to one under the share `2 ^ 256`, where the share is zero,
is too large for a digest. -/
theorem not_explains_respond :
    (Exponent.zero.val < order ∧ Exponent.one.val < order ∧ 2 ^ 256 < order) ∧
      ¬ (⟨2 ^ 256⟩ : Exponent).Explains .one
        (Exponent.zero.respond ((⟨⟨5⟩, "guardian-1"⟩ : Nonces).get 0) .one) := by
  have hwide := pow_add_pow_lt_order
  refine ⟨⟨Nat.Prime.pos order_prime, Nat.Prime.one_lt order_prime, by omega⟩, ?_⟩
  rw [explains_iff, not_lt]
  obtain ⟨h, hget⟩ : ∃ h : Digest, h.toExponent = (⟨⟨5⟩, "guardian-1"⟩ : Nonces).get 0 := ⟨_, rfl⟩
  have hnonce := Digest.exists_toExponent_eq.1 ⟨h, hget⟩
  rw [← hget] at hnonce ⊢
  have hsum : h.toExponent.val + 2 ^ 256 < order := by omega
  have hexplained : Exponent.zero.respond h.toExponent .one + .one * ⟨2 ^ 256⟩ =
      ⟨h.toExponent.val + 2 ^ 256⟩ := by
    apply ext_residue (add_lt _ _) hsum
    rw [residue_add, residue_mul, respond, residue_sub_mul, residue_one, residue_zero]
    simp [residue]
  rw [hexplained]
  exact Nat.le_add_left _ _

end ThresholdElGamal
