import Mathlib.AlgebraicGeometry.EllipticCurve.Affine.Point
import Mathlib.FieldTheory.Finite.Basic
import Mathlib.Tactic

/-! # Primality by elliptic curves

A number `n` is prime as soon as, modulo `n`, a point of an elliptic curve is taken to zero by a
prime `q` large against the square root of `n`: modulo a prime factor of `n` below that root, the
curve has too few points for an order of `q`. The multiples of the point are computed on numbers,
in Jacobian coordinates, by a check that the kernel can run.
-/

namespace Elliptic

/-- The coordinates of the affine point `(x / z ^ 2, y / z ^ 3)`. -/
@[ext]
structure Jacobian (R : Type*) where
  x : R
  y : R
  z : R

namespace Jacobian

/-- The tangent rule on `y ^ 2 = x ^ 3 + a x + b`, modulo `n`. -/
def double (n a : ℕ) (p : Jacobian ℕ) : Jacobian ℕ :=
  let yy := p.y * p.y % n
  let zz := p.z * p.z % n
  let s := 4 * p.x * yy % n
  let m := (3 * p.x * p.x + a * (zz * zz % n)) % n
  let x := (m * m + 2 * (n - s)) % n
  ⟨x, (m * (s + (n - x)) + 8 * (n - yy * yy % n)) % n, 2 * p.y * p.z % n⟩

/-- The chord rule with the point `(t, t)`, modulo `n`. -/
def addDiagonal (n t : ℕ) (p : Jacobian ℕ) : Jacobian ℕ :=
  let zz := p.z * p.z % n
  let h := (t * zz + (n - p.x % n)) % n
  let r := (t * (zz * p.z % n) + (n - p.y % n)) % n
  let hh := h * h % n
  let hhh := hh * h % n
  let v := p.x * hh % n
  let x := (r * r + (n - hhh) + 2 * (n - v)) % n
  ⟨x, (r * (v + (n - x)) + p.y * (n - hhh)) % n, p.z * h % n⟩

/-- The multiple of `(t, t)` by the number that has a leading one and the lowest `bits` bits of
`k` behind it. -/
def multiple (n a t : ℕ) : (bits k : ℕ) → Jacobian ℕ
  | 0, _ => ⟨t, t, 1⟩
  | bits + 1, k =>
    let p := double n a (multiple n a t bits (k / 2))
    if k % 2 = 1 then addDiagonal n t p else p

variable {R : Type*} [CommRing R]

def tangent (a : R) (p : Jacobian R) : Jacobian R :=
  let m := 3 * p.x ^ 2 + a * p.z ^ 4
  let s := 4 * p.x * p.y ^ 2
  let x := m ^ 2 - 2 * s
  ⟨x, m * (s - x) - 8 * p.y ^ 4, 2 * p.y * p.z⟩

def chord (t : R) (p : Jacobian R) : Jacobian R :=
  let h := t * p.z ^ 2 - p.x
  let r := t * p.z ^ 3 - p.y
  let x := r ^ 2 - h ^ 3 - 2 * (p.x * h ^ 2)
  ⟨x, r * (p.x * h ^ 2 - x) - p.y * h ^ 3, p.z * h⟩

def cast (R : Type*) [CommRing R] (p : Jacobian ℕ) : Jacobian R := ⟨p.x, p.y, p.z⟩

section Cast

variable {n : ℕ}

theorem cast_mod (hn : (n : R) = 0) (m : ℕ) : ((m % n : ℕ) : R) = m := by
  conv_rhs => rw [← Nat.mod_add_div m n]
  push_cast
  rw [hn]
  ring

theorem cast_complement (hn : (n : R) = 0) (hpos : 0 < n) (m : ℕ) :
    ((n - m % n : ℕ) : R) = -(m : R) := by
  rw [Nat.cast_sub (Nat.mod_lt _ hpos).le, cast_mod hn, hn, zero_sub]

theorem cast_double (hn : (n : R) = 0) (hpos : 0 < n) (a : ℕ) (p : Jacobian ℕ) :
    (double n a p).cast R = (p.cast R).tangent (a : R) := by
  ext <;> simp only [cast, double, tangent, cast_mod hn, cast_complement hn hpos, Nat.cast_mul,
    Nat.cast_add, Nat.cast_ofNat] <;> ring

theorem cast_addDiagonal (hn : (n : R) = 0) (hpos : 0 < n) (t : ℕ) (p : Jacobian ℕ) :
    (addDiagonal n t p).cast R = (p.cast R).chord (t : R) := by
  ext <;> simp only [cast, addDiagonal, chord, cast_mod hn, cast_complement hn hpos, Nat.cast_mul,
    Nat.cast_add, Nat.cast_ofNat] <;> ring

end Cast

end Jacobian

open WeierstrassCurve

variable {F : Type*} [Field F] [DecidableEq F]

/-- The curve `y ^ 2 = x ^ 3 + a x + b` through `(t, t)`. -/
def curve (a t : F) : Affine F :=
  { a₁ := 0, a₂ := 0, a₃ := 0, a₄ := a, a₆ := t ^ 2 - t ^ 3 - a * t }

variable {a t : F}

omit [DecidableEq F] in
theorem negY_curve (x y : F) : (curve a t).negY x y = -y := by
  simp [Affine.negY, curve]

omit [DecidableEq F] in
theorem ne_negY_curve {x y : F} (h2 : (2 : F) ≠ 0) (hy : y ≠ 0) : y ≠ (curve a t).negY x y := by
  rw [negY_curve]
  intro h
  exact mul_ne_zero h2 hy (by linear_combination h)

theorem slope_curve {x y : F} (hy : y ≠ (curve a t).negY x y) :
    (curve a t).slope x x y y = (3 * x ^ 2 + a) / (2 * y) := by
  rw [Affine.slope_of_Y_ne rfl hy, negY_curve]
  simp only [curve]
  congr 1 <;> ring

omit [DecidableEq F] in
theorem nonsingular_curve (h2 : (2 : F) ≠ 0) (ht : t ≠ 0) : (curve a t).Nonsingular t t := by
  refine (Affine.nonsingular_iff _ _).2 ⟨(Affine.equation_iff _ _).2 ?_, .inr ?_⟩
  · simp only [curve]
    ring
  · exact ne_negY_curve h2 ht

/-- The coordinates stand for the point. -/
def Jacobian.Denotes (p : Jacobian F) (P : (curve a t).Point) : Prop :=
  ∃ x y h, P = .some x y h ∧ p.x = x * p.z ^ 2 ∧ p.y = y * p.z ^ 3

theorem Jacobian.Denotes.tangent {p : Jacobian F} {P : (curve a t).Point} (h : p.Denotes P)
    (hz : (p.tangent a).z ≠ 0) : (p.tangent a).Denotes (P + P) := by
  obtain ⟨x, y, hp, rfl, hx, hy⟩ := h
  have hpy : p.y ≠ 0 := right_ne_zero_of_mul (left_ne_zero_of_mul hz)
  have h2 : (2 : F) ≠ 0 := left_ne_zero_of_mul (left_ne_zero_of_mul hz)
  have hy0 : y ≠ 0 := left_ne_zero_of_mul (hy ▸ hpy)
  have hne := ne_negY_curve (a := a) (t := t) (x := x) h2 hy0
  refine ⟨_, _, _, Affine.Point.add_self_of_Y_ne hne, ?_, ?_⟩ <;> rw [slope_curve hne] <;>
    simp only [Jacobian.tangent, hx, hy, Affine.addY, Affine.negAddY, Affine.addX, Affine.negY,
      curve] <;>
    field_simp <;> ring

theorem Jacobian.Denotes.chord {p : Jacobian F} {P : (curve a t).Point} (h : p.Denotes P)
    (ht : (curve a t).Nonsingular t t) (hz : (p.chord t).z ≠ 0) :
    (p.chord t).Denotes (P + .some t t ht) := by
  obtain ⟨x, y, hp, rfl, hx, hy⟩ := h
  have hne : x ≠ t := by
    rintro rfl
    exact right_ne_zero_of_mul hz (by rw [hx]; ring)
  have hne' : x - t ≠ 0 := sub_ne_zero.2 hne
  refine ⟨_, _, _, Affine.Point.add_of_X_ne hne, ?_, ?_⟩ <;> rw [Affine.slope_of_X_ne hne] <;>
    simp only [Jacobian.chord, hx, hy, Affine.addY, Affine.negAddY, Affine.addX, Affine.negY,
      curve] <;>
    field_simp <;> ring

section Multiple

variable {n : ℕ} {a t : ℕ}

/-- A multiple computed modulo `n` is the multiple over every field in which `n` is zero, as soon
as its last coordinate does not vanish there. -/
theorem multiple_denotes (hn : (n : F) = 0) (hpos : 0 < n)
    (ht : (curve (a : F) t).Nonsingular t t) (bits k : ℕ) :
    ((Jacobian.multiple n a t bits k).cast F).z ≠ 0 →
      ((Jacobian.multiple n a t bits k).cast F).Denotes
        ((2 ^ bits + k % 2 ^ bits) • Affine.Point.some _ _ ht) := by
  induction bits generalizing k with
  | zero =>
    intro
    simp only [pow_zero, Nat.mod_one, add_zero, one_smul]
    exact ⟨t, t, ht, rfl, by simp [Jacobian.multiple, Jacobian.cast],
      by simp [Jacobian.multiple, Jacobian.cast]⟩
  | succ bits ih =>
    intro hz
    have hk : 2 ^ (bits + 1) + k % 2 ^ (bits + 1) =
        2 * (2 ^ bits + k / 2 % 2 ^ bits) + k % 2 := by
      rw [pow_succ, mul_comm (2 ^ bits) 2, Nat.mod_mul]
      ring
    have hdouble : ∀ h : ((Jacobian.multiple n a t bits (k / 2)).cast F |>.tangent (a : F)).z ≠ 0,
        (((Jacobian.multiple n a t bits (k / 2)).cast F).tangent (a : F)).Denotes
          ((2 * (2 ^ bits + k / 2 % 2 ^ bits)) • Affine.Point.some _ _ ht) := by
      intro h
      rw [mul_smul, two_nsmul]
      exact (ih _ (right_ne_zero_of_mul h)).tangent h
    rw [hk]
    simp only [Jacobian.multiple] at hz ⊢
    split at hz
    · next hodd =>
      rw [if_pos hodd, hodd, add_smul, one_smul]
      rw [Jacobian.cast_addDiagonal hn hpos, Jacobian.cast_double hn hpos] at hz ⊢
      exact (hdouble (left_ne_zero_of_mul hz)).chord ht hz
    · next heven =>
      rw [if_neg heven, show k % 2 = 0 by omega, add_zero]
      rw [Jacobian.cast_double hn hpos] at hz ⊢
      exact hdouble hz

end Multiple

section Order

variable {a t : F} {q : ℕ} {P : (curve a t).Point}

theorem dvd_of_smul_eq_zero (hq : q.Prime) (hP : P ≠ 0) (h : q • P = 0) {k : ℤ}
    (hk : k • P = 0) : (q : ℤ) ∣ k := by
  have : Fact q.Prime := ⟨hq⟩
  have hdvd := addOrderOf_dvd_iff_zsmul_eq_zero.2 hk
  rwa [addOrderOf_eq_prime h hP] at hdvd

theorem exists_coordinates (hq : q.Prime) (hP : P ≠ 0) (h : q • P = 0) {k : ℕ} (hk : 0 < k)
    (hkq : k < q) : ∃ x y hxy, k • P = .some x y hxy := by
  cases hkP : k • P with
  | zero =>
    have hzero : (k : ℤ) • P = 0 := by rw [natCast_zsmul, hkP]; rfl
    have hdvd := Int.natCast_dvd_natCast.1 (dvd_of_smul_eq_zero hq hP h hzero)
    exact absurd (Nat.le_of_dvd hk hdvd) (by omega)
  | some x y hxy => exact ⟨x, y, hxy, rfl⟩

/-- The multiples of a point of prime order below half the order have different `x`. -/
theorem xRep_injOn (hq : q.Prime) (hP : P ≠ 0) (h : q • P = 0) :
    Set.InjOn (fun k : ℕ => (k • P).xRep 0) (Finset.Icc 1 ((q - 1) / 2) : Finset ℕ) := by
  intro k hk l hl hkl
  simp only [Finset.coe_Icc, Set.mem_Icc] at hk hl
  obtain ⟨x, y, hxy, hkP⟩ := exists_coordinates hq hP h (k := k) (by omega) (by omega)
  obtain ⟨x', y', hxy', hlP⟩ := exists_coordinates hq hP h (k := l) (by omega) (by omega)
  simp only [hkP, hlP, Affine.Point.xRep_some, Matrix.cons_val_zero] at hkl
  -- equal first coordinates leave a point and its negative
  rcases Affine.Point.X_eq_iff.1 hkl with heq | heq
  · have hzero : ((k : ℤ) - l) • P = 0 := by
      rw [sub_smul, natCast_zsmul, natCast_zsmul, hkP, hlP, heq, sub_self]
    have := Int.eq_zero_of_abs_lt_dvd (dvd_of_smul_eq_zero hq hP h hzero) (by rw [abs_lt]; omega)
    omega
  · have hzero : ((k : ℤ) + l) • P = 0 := by
      rw [add_smul, natCast_zsmul, natCast_zsmul, hkP, hlP, heq, neg_add_cancel]
    have := Int.le_of_dvd (by omega) (dvd_of_smul_eq_zero hq hP h hzero)
    omega

theorem order_le [Fintype F] (hq : q.Prime) (hP : P ≠ 0) (h : q • P = 0) :
    q ≤ 2 * Fintype.card F + 2 := by
  have hcard := Finset.card_le_card_of_injOn (t := Finset.univ) _ (by simp) (xRep_injOn hq hP h)
  rw [Nat.card_Icc, Finset.card_univ] at hcard
  omega

end Order

/-- The point whose multiples show the primality of `n`: it lies on the curve through `(t, t)`
with slope parameter `a`. -/
structure Step where
  n : ℕ
  a : ℕ
  t : ℕ

namespace Step

/-- The multiple by `q - 1` is the negative of the point, and meets no other point on the way. -/
def closes (s : Step) (p : Jacobian ℕ) : Bool :=
  let zz := p.z * p.z % s.n
  Nat.gcd p.z s.n == 1 && p.x % s.n == s.t * zz % s.n &&
    (p.y + s.t * (zz * p.z % s.n)) % s.n == 0

/-- Whether the point has order `q`, a prime large enough to show that `n` is one. -/
def extends? (s : Step) (q : ℕ) : Bool :=
  1 < s.n && 4 * s.n < (q - 2) * (q - 2) && Nat.gcd (2 * s.t) s.n == 1 &&
    s.closes (Jacobian.multiple s.n s.a s.t (q - 1).log2 (q - 1))

theorem cast_ne_zero_of_gcd {m n r : ℕ} (hr : r.Prime) (hdvd : r ∣ n) (h : Nat.gcd m n = 1) :
    (m : ZMod r) ≠ 0 := by
  intro h0
  have hone := Nat.dvd_gcd ((ZMod.natCast_eq_zero_iff _ _).1 h0) hdvd
  rw [h] at hone
  exact hr.one_lt.ne' (Nat.dvd_one.1 hone)

theorem two_pow_log2_add_mod {k : ℕ} (hk : k ≠ 0) : 2 ^ k.log2 + k % 2 ^ k.log2 = k := by
  have hlow := Nat.log2_self_le hk
  have hhigh := Nat.lt_log2_self (n := k)
  rw [pow_succ] at hhigh
  rw [Nat.mod_eq_sub_mod hlow, Nat.mod_eq_of_lt (by omega)]
  omega

theorem smul_eq_zero {s : Step} {q : ℕ} (hq : 1 < q) (hn : (s.n : F) = 0) (hpos : 0 < s.n)
    (ht : (curve (s.a : F) s.t).Nonsingular s.t s.t)
    (hz : ((Jacobian.multiple s.n s.a s.t (q - 1).log2 (q - 1)).z : F) ≠ 0)
    (h : s.closes (Jacobian.multiple s.n s.a s.t (q - 1).log2 (q - 1)) = true) :
    q • Affine.Point.some _ _ ht = 0 := by
  obtain ⟨x, y, hxy, hmul, hx, hy⟩ := multiple_denotes hn hpos ht _ _ hz
  simp only [closes, Bool.and_eq_true, beq_iff_eq] at h
  have hx' := congrArg (Nat.cast : ℕ → F) h.1.2
  have hy' := congrArg (Nat.cast : ℕ → F) h.2
  simp only [Jacobian.cast_mod hn, Nat.cast_mul, Nat.cast_add, Nat.cast_zero] at hx' hy'
  simp only [Jacobian.cast] at hx hy
  have hxt : x = s.t := by
    apply mul_right_cancel₀ (pow_ne_zero 2 hz)
    rw [← hx, hx']
    ring
  have hyt : y = -s.t := by
    apply mul_right_cancel₀ (pow_ne_zero 3 hz)
    rw [← hy]
    linear_combination hy'
  have hneg : (q - 1) • Affine.Point.some _ _ ht = -Affine.Point.some _ _ ht := by
    rw [two_pow_log2_add_mod (by omega)] at hmul
    rw [hmul, Affine.Point.neg_some]
    simp only [hxt, hyt, negY_curve]
  calc q • Affine.Point.some _ _ ht
      = (q - 1) • Affine.Point.some _ _ ht + Affine.Point.some _ _ ht := by
        rw [← succ_nsmul, Nat.sub_add_cancel hq.le]
    _ = 0 := by rw [hneg, neg_add_cancel]

theorem prime {s : Step} {q : ℕ} (hq : q.Prime) (h : s.extends? q = true) : s.n.Prime := by
  simp only [extends?, Bool.and_eq_true, decide_eq_true_eq, beq_iff_eq] at h
  obtain ⟨⟨⟨hn, hlarge⟩, ht⟩, hcloses⟩ := h
  by_contra hnp
  let r := s.n.minFac
  have hr : r.Prime := Nat.minFac_prime hn.ne'
  have : Fact r.Prime := ⟨hr⟩
  have hn0 : (s.n : ZMod r) = 0 := (ZMod.natCast_eq_zero_iff _ _).2 s.n.minFac_dvd
  have h2t : ((2 * s.t : ℕ) : ZMod r) ≠ 0 := cast_ne_zero_of_gcd hr s.n.minFac_dvd ht
  push_cast at h2t
  have hns : (curve (s.a : ZMod r) s.t).Nonsingular s.t s.t :=
    nonsingular_curve (left_ne_zero_of_mul h2t) (right_ne_zero_of_mul h2t)
  have hz : ((Jacobian.multiple s.n s.a s.t (q - 1).log2 (q - 1)).z : ZMod r) ≠ 0 := by
    refine cast_ne_zero_of_gcd hr s.n.minFac_dvd ?_
    simp only [closes, Bool.and_eq_true, beq_iff_eq] at hcloses
    exact hcloses.1.1
  have horder := order_le hq (Affine.Point.some_ne_zero hns)
    (smul_eq_zero hq.one_lt hn0 (by omega) hns hz hcloses)
  rw [ZMod.card] at horder
  have hsq : r ^ 2 ≤ s.n := Nat.minFac_sq_le_self (by omega) hnp
  have : (q - 2) * (q - 2) ≤ 4 * r ^ 2 := by
    calc (q - 2) * (q - 2) ≤ (2 * r) * (2 * r) := Nat.mul_le_mul (by omega) (by omega)
      _ = 4 * r ^ 2 := by ring
  omega

end Step

/-- Whether each step extends the one before it, the first one a given number. -/
def climbs : ℕ → List Step → Bool
  | _, [] => true
  | q, s :: rest => s.extends? q && climbs s.n rest

theorem prime_of_climbs {q : ℕ} (hq : q.Prime) {steps : List Step} (h : climbs q steps = true) :
    ∀ s ∈ steps, s.n.Prime := by
  induction steps generalizing q with
  | nil => simp
  | cons s rest ih =>
    simp only [climbs, Bool.and_eq_true] at h
    have hs := s.prime hq h.1
    rintro _ (_ | ⟨_, hmem⟩)
    · exact hs
    · exact ih hs h.2 _ hmem

/-- Steps that climb from a given number. -/
structure Chain (q : ℕ) where
  steps : List Step
  climbs : climbs q steps = true

theorem Chain.prime {q : ℕ} (c : Chain q) (hq : q.Prime) : ∀ s ∈ c.steps, s.n.Prime :=
  prime_of_climbs hq c.climbs

end Elliptic
