import ThresholdElGamal.Ciphertext.ElGamal
import ThresholdElGamal.Proofs.Ciphertext.DiscreteLog
import ThresholdElGamal.Proofs.Group.Powers

/-! # Counts under encryption

A ciphertext holds a count when some nonce leads to it. Encryptions hold what was encrypted, sums of
ciphertexts hold the sum, and the holder of the secret key finds the public key to the power of the
count. Unless the key is one it has order `q`, so counts below `q` are told apart.
-/

namespace ThresholdElGamal

namespace Element

variable {x : Element}

/-- Powers of an element of the subgroup other than one are told apart below `q`. -/
theorem isLog_powNat (h : x.isResidue = true) (hne : x ≠ one) {n : ℕ} (hn : n < order) :
    x.IsLog (x.powNat n) n := by
  obtain ⟨hlt, htorsion⟩ := isResidue_iff.1 h
  have hresidue : x.residue ≠ 1 := fun hone => hne (ext_residue hlt one_lt (by simpa using hone))
  have horder : orderOf x.residue = order := orderOf_eq_prime htorsion hresidue
  refine isLog_of_forall_lt rfl ?_
  intro m hm heq
  have hpow := congrArg residue heq
  rw [residue_powNat, residue_powNat] at hpow
  have hmn := pow_injOn_Iio_orderOf (horder.symm ▸ hm.trans hn) (horder.symm ▸ hn) hpow
  exact hm.ne hmn

end Element

namespace Ciphertext

/-- The ciphertext is the count under the public key and some nonce. -/
def Holds (publicKey : Element) (c : Ciphertext) (count : ℕ) : Prop :=
  ∃ nonce : Exponent, c.pad = genPow nonce ∧
    c.data.residue = publicKey.residue ^ (nonce.val + count)

variable {publicKey : Element} {a b : Ciphertext} {m n : ℕ}

theorem holds_zero : Holds publicKey .zero 0 :=
  ⟨.zero, genPow_zero.symm, Element.residue_one⟩

theorem holds_encrypt (hkey : publicKey.IsTorsion) (count : UInt32) (nonce : Exponent) :
    Holds publicKey (encrypt publicKey count nonce) count.toNat := by
  refine ⟨nonce, rfl, ?_⟩
  rw [encrypt, Element.residue_pow]
  refine hkey.pow_eq_pow ?_
  have hsum := Exponent.residue_add nonce (.ofNat count.toNat)
  rw [Exponent.residue_ofNat] at hsum
  rw [Nat.cast_add]
  exact hsum

namespace Holds

theorem isResidue_pad (h : Holds publicKey a m) : a.pad.isResidue = true := by
  obtain ⟨nonce, hpad, -⟩ := h
  rw [hpad]
  exact isResidue_genPow nonce

theorem add (hkey : publicKey.IsTorsion) (ha : Holds publicKey a m) (hb : Holds publicKey b n) :
    Holds publicKey (a + b) (m + n) := by
  obtain ⟨v, hapad, hadata⟩ := ha
  obtain ⟨w, hbpad, hbdata⟩ := hb
  refine ⟨v + w, ?_, ?_⟩
  · rw [add_def, hapad, hbpad, genPow_mul_genPow]
  · rw [add_def, Element.residue_mul, hadata, hbdata, ← pow_add]
    refine hkey.pow_eq_pow ?_
    have hsum : (((v + w).val : ℕ) : ZMod order) = v.val + w.val := Exponent.residue_add v w
    push_cast
    rw [hsum]
    ring

theorem decrypt_eq {secret : Exponent} (hkey : publicKey = genPow secret)
    (h : Holds publicKey a n) : a.decrypt secret = publicKey.powNat n := by
  obtain ⟨nonce, hpad, hdata⟩ := h
  have hne : publicKey.residue ≠ 0 := by
    rw [hkey]
    exact Element.IsTorsion.residue_ne_zero (isTorsion_genPow secret)
  have hmask : a.pad ^ secret = publicKey ^ nonce := by
    rw [hpad, hkey, genPow_pow, genPow_pow]
    apply genPow_congr
    rw [Exponent.residue_mul, Exponent.residue_mul, mul_comm]
  apply Element.ext_residue (Element.div_lt _ _) (Element.powNat_lt _ _)
  rw [hmask, Element.residue_div, Element.residue_powNat, Element.residue_pow, hdata, pow_add,
    mul_div_cancel_left₀ _ (pow_ne_zero _ hne)]

end Holds

end Ciphertext

end ThresholdElGamal
