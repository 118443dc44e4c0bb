import Mathlib.Data.List.Induction
import Mathlib.Tactic.Ring
import ThresholdElGamal.Bytes.BigEndian

/-! # Numbers and their bytes

The number of a byte string is below the power of 256 for its length, and every number below that
power is one of a string of this length. Writing a number in bytes loses nothing, and fills exactly
the given width when the number fits it.
-/

namespace ThresholdElGamal.Bytes

theorem toNat_concat (bytes : Bytes) (b : UInt8) :
    (bytes ++ [b] : Bytes).toNat = bytes.toNat * 256 + b.toNat := by
  simp [toNat]

theorem toNat_append (front back : Bytes) :
    (front ++ back : Bytes).toNat = front.toNat * 256 ^ back.length + back.toNat := by
  induction back using List.reverseRecOn with
  | nil => simp [toNat]
  | append_singleton back b ih =>
    rw [← List.append_assoc, toNat_concat, ih, toNat_concat, List.length_append,
      List.length_singleton, pow_succ]
    ring

theorem toNat_lt (bytes : Bytes) : bytes.toNat < 256 ^ bytes.length := by
  induction bytes using List.reverseRecOn with
  | nil => exact Nat.one_pos
  | append_singleton bytes b ih =>
    have hb := b.toNat_lt
    rw [toNat_concat, List.length_append, List.length_singleton, pow_succ]
    omega

theorem exists_toNat_eq {w n : ℕ} (h : n < 256 ^ w) :
    ∃ bytes : Bytes, bytes.length = w ∧ bytes.toNat = n := by
  induction w generalizing n with
  | zero =>
    rw [pow_zero, Nat.lt_one_iff] at h
    exact ⟨[], rfl, h.symm⟩
  | succ w ih =>
    rw [pow_succ] at h
    obtain ⟨bytes, hlength, htoNat⟩ := ih (Nat.div_lt_of_lt_mul (by rwa [mul_comm] at h))
    refine ⟨bytes ++ [UInt8.ofNat (n % 256)], by simp [hlength], ?_⟩
    rw [toNat_concat, htoNat, UInt8.toNat_ofNat']
    omega

theorem toNat_replicate_zero (count : ℕ) : toNat (List.replicate count 0) = 0 := by
  induction count with
  | zero => rfl
  | succ count ih => rw [List.replicate_succ', toNat_concat, ih]; rfl

theorem toNat_cons (b : UInt8) (bytes : Bytes) :
    toNat (b :: bytes) = b.toNat * 256 ^ bytes.length + bytes.toNat := by
  simpa [toNat] using toNat_append [b] bytes

theorem toNat_pushNat (n : ℕ) (rest : Bytes) :
    (pushNat n rest).toNat = n * 256 ^ rest.length + rest.toNat := by
  induction n, rest using pushNat.induct with
  | case1 rest => simp [pushNat]
  | case2 n rest hn ih =>
    rw [pushNat, if_neg hn, ih, toNat_cons, UInt8.toNat_ofNat', List.length_cons, pow_succ,
      Nat.mod_mod_of_dvd _ (dvd_refl _)]
    conv_rhs => rw [← Nat.div_add_mod n 256]
    ring

@[simp]
theorem toNat_ofNat (width n : ℕ) : (ofNat width n).toNat = n := by
  rw [ofNat, toNat_append, toNat_replicate_zero, toNat_pushNat]
  simp [toNat]

theorem ofNat_injective (width : ℕ) : Function.Injective (ofNat width) :=
  Function.LeftInverse.injective (toNat_ofNat width)

theorem length_pushNat_le {n w : ℕ} (h : n < 256 ^ w) (rest : Bytes) :
    (pushNat n rest).length ≤ w + rest.length := by
  induction w generalizing n rest with
  | zero =>
    rw [pow_zero, Nat.lt_one_iff] at h
    simp [h, pushNat]
  | succ w ih =>
    rw [pushNat]
    split
    · omega
    · rw [pow_succ] at h
      refine (ih (Nat.div_lt_of_lt_mul (by rwa [mul_comm] at h)) _).trans ?_
      rw [List.length_cons]
      omega

theorem length_ofNat {width n : ℕ} (h : n < 256 ^ width) : (ofNat width n).length = width := by
  have hdigits := length_pushNat_le h []
  rw [List.length_nil] at hdigits
  rw [ofNat, List.length_append, List.length_replicate]
  omega

end ThresholdElGamal.Bytes
