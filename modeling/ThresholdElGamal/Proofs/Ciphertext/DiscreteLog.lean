import Mathlib.Order.Bounds.Basic
import Mathlib.Order.Nat
import Std.Data.HashMap.Lemmas
import ThresholdElGamal.Ciphertext.DiscreteLog
import ThresholdElGamal.Group.Power

/-! # Searches for bounded discrete logarithms

The table holds the least exponent of every power up to the last one that was computed, whatever
was searched for before. So a search finds the least exponent of a value, if that is within the
bound, and finds nothing else.
-/

namespace ThresholdElGamal

namespace Element

theorem powNat_zero (a : Element) : a.powNat 0 = one := by
  rw [powNat_def]
  rfl

theorem powNat_succ (a : Element) (n : ℕ) : a.powNat (n + 1) = a.powNat n * a := by
  rw [powNat_def, powNat_def, mul_def, Nat.pow_succ, Nat.mod_mul_mod]

/-- The least exponent for which the power of the base is the value. -/
def IsLog (base value : Element) (e : ℕ) : Prop := IsLeast {n | base.powNat n = value} e

variable {base value : Element} {e e' n : ℕ}

theorem IsLog.unique (h : base.IsLog value e) (h' : base.IsLog value e') : e = e' :=
  IsLeast.unique h h'

theorem exists_isLog (h : base.powNat n = value) : ∃ e ≤ n, base.IsLog value e :=
  ⟨_, Nat.find_min' ⟨n, h⟩ h, Nat.isLeast_find ⟨n, h⟩⟩

theorem isLog_of_forall_lt (h : base.powNat n = value) (hlt : ∀ m < n, base.powNat m ≠ value) :
    base.IsLog value n := by
  refine ⟨h, ?_⟩
  intro m hm
  by_contra hmn
  exact hlt m (by omega) hm

end Element

namespace DiscreteLog

open Element

/-- The table knows the least exponents of all powers that it has reached. -/
structure Exact (base : Element) (bound : ℕ) (t : DiscreteLog) : Prop where
  base_eq : t.base = base
  bound_eq : t.bound = bound
  reached : t.exponent ≤ bound
  last : t.last = base.powNat t.exponent
  exponents : ∀ value e, t.exponents[value]? = some e ↔ e ≤ t.exponent ∧ base.IsLog value e

variable {base value : Element} {bound : ℕ} {t : DiscreteLog}

theorem exact_start (base : Element) (bound : ℕ) : Exact base bound (start base bound) where
  base_eq := rfl
  bound_eq := rfl
  reached := Nat.zero_le _
  last := base.powNat_zero.symm
  exponents := by
    intro value e
    have hzero : base.IsLog .one 0 := ⟨base.powNat_zero, fun n _ => n.zero_le⟩
    simp only [start, Std.HashMap.getElem?_insert, beq_iff_eq, Nat.le_zero_eq]
    constructor
    · intro h
      split at h
      · next heq =>
        subst heq
        cases h
        exact ⟨rfl, hzero⟩
      · simp at h
    · rintro ⟨rfl, hlog⟩
      rw [if_pos (base.powNat_zero.symm.trans hlog.1)]

namespace Exact

variable (h : Exact base bound t)
include h

theorem mem_exponents : value ∈ t.exponents ↔ ∃ n ≤ t.exponent, base.powNat n = value := by
  rw [Std.HashMap.mem_iff_isSome_getElem?, Option.isSome_iff_exists]
  constructor
  · rintro ⟨e, he⟩
    obtain ⟨hle, hlog⟩ := (h.exponents value e).1 he
    exact ⟨e, hle, hlog.1⟩
  · rintro ⟨n, hn, hpow⟩
    obtain ⟨e, he, hlog⟩ := exists_isLog hpow
    exact ⟨e, (h.exponents value e).2 ⟨he.trans hn, hlog⟩⟩

theorem last_extend : t.extend.last = base.powNat (t.exponent + 1) := by
  rw [powNat_succ, ← h.last, ← h.base_eq]
  rfl

theorem extend (hbound : t.exponent < bound) : Exact base bound t.extend where
  base_eq := h.base_eq
  bound_eq := h.bound_eq
  reached := hbound
  last := h.last_extend
  exponents := by
    intro value e
    have hnext : t.last * t.base = base.powNat (t.exponent + 1) := h.last_extend
    change (t.exponents.insertIfNew (t.last * t.base) (t.exponent + 1))[value]? = some e ↔
      e ≤ t.exponent + 1 ∧ _
    simp only [Std.HashMap.getElem?_insertIfNew, hnext, beq_iff_eq, h.mem_exponents]
    split
    · next hnew =>
      obtain ⟨rfl, hnone⟩ := hnew
      have hlog : base.IsLog (base.powNat (t.exponent + 1)) (t.exponent + 1) :=
        isLog_of_forall_lt rfl fun n hn hpow => hnone ⟨n, Nat.le_of_lt_succ hn, hpow⟩
      rw [Option.some_inj]
      constructor
      · rintro rfl
        exact ⟨le_rfl, hlog⟩
      · rintro ⟨-, hlog'⟩
        exact hlog.unique hlog'
    · next hold =>
      rw [h.exponents]
      refine and_congr_left fun hlog => ?_
      have hne : e ≠ t.exponent + 1 := by
        rintro rfl
        refine hold ⟨hlog.1, ?_⟩
        rintro ⟨n, hn, hpow⟩
        have hle := hlog.2 (hpow.trans hlog.1)
        omega
      omega

theorem search {steps : ℕ} (hsteps : t.exponent + steps = bound)
    (hnew : ∀ n ≤ t.exponent, base.powNat n ≠ value) :
    Exact base bound (search value steps t).2 ∧
      ∀ e, (search value steps t).1 = some e ↔ e ≤ bound ∧ base.IsLog value e := by
  induction steps generalizing t with
  | zero =>
    refine ⟨h, ?_⟩
    intro e
    constructor
    · rintro ⟨⟩
    · rintro ⟨hle, hlog⟩
      exact absurd hlog.1 (hnew e (by omega))
  | succ steps ih =>
    have hextend := h.extend (by omega)
    have hreached : t.extend.exponent = t.exponent + 1 := rfl
    rw [DiscreteLog.search]
    split
    · next hfound =>
      refine ⟨hextend, ?_⟩
      have hlog : base.IsLog value (t.exponent + 1) :=
        isLog_of_forall_lt (h.last_extend.symm.trans hfound)
          fun n hn => hnew n (Nat.le_of_lt_succ hn)
      intro e
      rw [hreached, Option.some_inj]
      constructor
      · rintro rfl
        exact ⟨by omega, hlog⟩
      · rintro ⟨-, hlog'⟩
        exact hlog.unique hlog'
    · next hother =>
      refine ih hextend (by omega) ?_
      intro n hn hpow
      rcases Nat.le_succ_iff.1 hn with hle | rfl
      · exact hnew n hle hpow
      · exact hother (h.last_extend.trans hpow)

theorem find (value : Element) : Exact base bound (t.find value).2 ∧
    ∀ e, (t.find value).1 = some e ↔ e ≤ bound ∧ base.IsLog value e := by
  have hreached := h.reached
  rw [DiscreteLog.find]
  split
  · next e he =>
    obtain ⟨hle, hlog⟩ := (h.exponents value e).1 he
    refine ⟨h, ?_⟩
    intro e'
    rw [Option.some_inj]
    constructor
    · rintro rfl
      exact ⟨hle.trans hreached, hlog⟩
    · rintro ⟨-, hlog'⟩
      exact hlog.unique hlog'
  · next hnone =>
    rw [h.bound_eq]
    refine h.search (by omega) ?_
    intro n hn hpow
    have hmem := Std.HashMap.mem_iff_isSome_getElem?.1 (h.mem_exponents.2 ⟨n, hn, hpow⟩)
    simp [hnone] at hmem

end Exact

/-- The table after some searches. -/
def ask (t : DiscreteLog) (queries : List Element) : DiscreteLog :=
  queries.foldl (fun t value => (t.find value).2) t

theorem Exact.ask (h : Exact base bound t) (queries : List Element) :
    Exact base bound (t.ask queries) := by
  induction queries generalizing t with
  | nil => exact h
  | cons value queries ih => exact ih (h.find value).1

theorem powNat_eq_iff {n : ℕ} : base.powNat n = value ↔ base.val ^ n % modulus = value.val := by
  rw [powNat_def, Element.ext_iff]

/-- The exponents within the bound under which a value is reached. -/
def Logs (base value : Element) (bound : ℕ) : Set ℕ :=
  {n | n ≤ bound ∧ base.val ^ n % modulus = value.val}

theorem isLeast_logs_iff {e : ℕ} :
    IsLeast (Logs base value bound) e ↔ e ≤ bound ∧ base.IsLog value e := by
  simp only [IsLeast, lowerBounds, Logs, IsLog, ← powNat_eq_iff, Set.mem_ofPred_eq, and_assoc,
    and_imp]
  refine and_congr_right fun hbound => and_congr_right fun _ => ?_
  constructor
  · intro hleast n hn
    rcases le_total n bound with hle | hle
    · exact hleast hle hn
    · exact hbound.trans hle
  · exact fun hleast n _ hn => hleast hn

/-- Whatever was searched for before, a value is found under its least exponent within the bound,
and missed only when there is none. So no answer depends on the searches before it. -/
theorem find_after_searches (base : Element) (bound : ℕ) (queries : List Element)
    (value : Element) :
    (∀ e, (((start base bound).ask queries).find value).1 = some e ↔
        IsLeast (Logs base value bound) e) ∧
      ((((start base bound).ask queries).find value).1 = none ↔ Logs base value bound = ∅) ∧
      (((start base bound).ask queries).find value).1 = ((start base bound).find value).1 := by
  have hfresh := ((exact_start base bound).find value).2
  have hlater := (((exact_start base bound).ask queries).find value).2
  refine ⟨fun e => (hlater e).trans isLeast_logs_iff.symm, ?_, ?_⟩
  · rw [Option.eq_none_iff_forall_ne_some, Set.eq_empty_iff_forall_notMem]
    constructor
    · rintro hnone n ⟨hn, hpow⟩
      obtain ⟨e, he, hlog⟩ := exists_isLog (powNat_eq_iff.2 hpow)
      exact hnone e ((hlater e).2 ⟨he.trans hn, hlog⟩)
    · rintro hempty e he
      obtain ⟨hbound, hlog⟩ := (hlater e).1 he
      exact hempty e ⟨hbound, powNat_eq_iff.1 hlog.1⟩
  · apply Option.ext
    intro e
    rw [hlater, hfresh]

end DiscreteLog

end ThresholdElGamal
