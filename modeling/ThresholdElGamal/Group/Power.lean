import Mathlib.Algebra.Group.Nat.Defs
import ThresholdElGamal.Group.Element

/-! # Modular powers are powers

Square and multiply computes the remainder of the power, so group elements are raised to
exponents as their numbers are.
-/

namespace ThresholdElGamal

theorem powModBits_eq (m bits base exponent : Nat) (h : exponent < 2 ^ bits) :
    powModBits m bits base exponent = base ^ exponent % m := by
  induction bits generalizing base exponent with
  | zero =>
    obtain rfl : exponent = 0 := by simpa using h
    rfl
  | succ bits ih =>
    have hhalf : exponent / 2 < 2 ^ bits := by
      rw [Nat.pow_succ] at h
      omega
    simp only [powModBits, ih _ _ hhalf]
    have hsquare : (base * base % m) ^ (exponent / 2) % m = base ^ (2 * (exponent / 2)) % m := by
      rw [← Nat.pow_mod, Nat.pow_mul, Nat.pow_two]
    split
    · next hodd =>
      rw [hsquare, Nat.mul_mod, Nat.mod_mod, ← Nat.mul_mod, ← Nat.pow_succ']
      congr 2
      omega
    · rw [hsquare]
      congr 2
      omega

theorem powMod_eq (m base exponent : Nat) : powMod m base exponent = base ^ exponent % m :=
  powModBits_eq _ _ _ _ Nat.lt_log2_self

namespace Element

theorem powNat_def (a : Element) (n : Nat) : a.powNat n = ⟨a.val ^ n % modulus⟩ :=
  congrArg Element.mk (powMod_eq _ _ _)

theorem pow_def (a : Element) (w : Exponent) : a ^ w = ⟨a.val ^ w.val % modulus⟩ :=
  a.powNat_def w.val

end Element

end ThresholdElGamal
