import Mathlib.Data.List.Pairwise
import ThresholdElGamal.Decryption.Session

/-! # Flags that responders agree on

A position is flagged as soon as one responder flags it. When all responders flag the same
positions, the flags are kept at exactly these, each with one reason for every responder. The
positions that a key holder flags are those of the pads outside the subgroup, in ascending order.
-/

namespace ThresholdElGamal

namespace Flags

variable {key : UInt64} {f : Option (List String) → List String} {keys : List UInt64}
  {done rest : List (UInt64 × List String)} {old : Option (List String)}

@[ext]
theorem ext {flags flags' : Flags} (h : flags.entries = flags'.entries) : flags = flags' := by
  rwa [Flags.mk.injEq]

theorem contains_iff {flags : Flags} {i : ℕ} :
    flags.contains i = true ↔ ∃ k ∈ flags.entries.map (·.1), k.toNat = i := by
  simp [contains]

theorem contains_foldl_add {flags : Flags} {reason : String} {i : ℕ} :
    (keys.foldl (fun flags k => flags.add k reason) flags).contains i = true ↔
      (∃ k ∈ keys, k.toNat = i) ∨ flags.contains i = true := by
  induction keys generalizing flags with
  | nil => simp
  | cons key keys ih =>
    have hadd : (flags.add key reason).contains i = true ↔
        key.toNat = i ∨ flags.contains i = true := by
      simp only [contains_iff, add, mem_keys_alter, or_and_right, exists_or, exists_eq_left]
    simp only [List.foldl_cons, ih, hadd, List.mem_cons, or_and_right, exists_or, exists_eq_left]
    exact or_left_comm.trans or_assoc.symm

theorem alter_append (hdone : ∀ kv ∈ done, kv.1 < key) :
    alter key f (done ++ rest) = done ++ alter key f rest := by
  induction done with
  | nil => rfl
  | cons kv done ih =>
    rw [List.forall_mem_cons] at hdone
    obtain ⟨hlt, htail⟩ := hdone
    rw [List.cons_append, alter, if_neg (UInt64.lt_asymm hlt), if_neg (UInt64.ne_of_lt hlt).symm,
      ih htail, List.cons_append]

/-- The same reasons against every key, or nothing yet. -/
def uniform (keys : List UInt64) : Option (List String) → List (UInt64 × List String)
  | none => []
  | some reasons => keys.map (·, reasons)

theorem alter_uniform :
    alter key f (uniform (key :: keys) old) = (key, f old) :: uniform keys old := by
  cases old with
  | none => rfl
  | some reasons => simp [uniform, alter]

theorem entries_foldl_add {flags : Flags} {reason : String}
    (hflags : flags.entries = done ++ uniform keys old)
    (hdone : ∀ kv ∈ done, ∀ k ∈ keys, kv.1 < k) (hkeys : keys.Pairwise (· < ·)) :
    (keys.foldl (fun flags k => flags.add k reason) flags).entries =
      done ++ keys.map (·, old.getD [] ++ [reason]) := by
  induction keys generalizing flags done with
  | nil =>
    cases old with
    | none => exact hflags
    | some reasons => exact hflags
  | cons key keys ih =>
    rw [List.pairwise_cons] at hkeys
    have hadd : (flags.add key reason).entries =
        (done ++ [(key, old.getD [] ++ [reason])]) ++ uniform keys old := by
      have hbefore : ∀ kv ∈ done, kv.1 < key := fun kv hkv => hdone kv hkv key List.mem_cons_self
      change alter key _ flags.entries = _
      rw [hflags, alter_append hbefore, alter_uniform]
      simp
    rw [List.foldl_cons, ih hadd _ hkeys.2]
    · simp
    · intro kv hkv k hk
      rcases List.mem_append.1 hkv with hkv | hkv
      · exact hdone kv hkv k (List.mem_cons_of_mem _ hk)
      · rw [List.mem_singleton.1 hkv]
        exact hkeys.1 k hk

end Flags

section InvalidPads

variable {pads : List Element}

theorem mem_invalidPads {k : UInt64} : k ∈ invalidPads pads ↔
    ∃ i pad, pads[i]? = some pad ∧ pad.isResidue = false ∧ UInt64.ofNat i = k := by
  simp only [invalidPads, List.mem_filterMap, Prod.exists, List.mk_mem_zipIdx_iff_getElem?,
    Option.ite_none_left_eq_some, Option.some.injEq, Bool.not_eq_true]
  exact exists_comm

theorem toNat_position {i : ℕ} (hsize : pads.length ≤ UInt64.size) (hi : i < pads.length) :
    (UInt64.ofNat i).toNat = i :=
  UInt64.toNat_ofNat_of_lt' (by omega)

theorem pairwise_invalidPads (hsize : pads.length ≤ UInt64.size) :
    (invalidPads pads).Pairwise (· < ·) := by
  rw [invalidPads, List.pairwise_filterMap, List.pairwise_iff_getElem]
  intro i j hi hj hij
  simp only [List.getElem_zipIdx, Nat.zero_add, Option.ite_none_left_eq_some, Option.some.injEq]
  rintro _ ⟨-, rfl⟩ _ ⟨-, rfl⟩
  rw [List.length_zipIdx] at hi hj
  rw [UInt64.lt_iff_toNat_lt, toNat_position hsize hi, toNat_position hsize hj]
  exact hij

/-- Flags at the positions of the invalid pads tell which pads are invalid. -/
theorem contains_of_entries {flags : Flags} {reasons : List String}
    (hflags : flags.entries = (invalidPads pads).map (·, reasons))
    (hsize : pads.length ≤ UInt64.size) {i : ℕ} {pad : Element} (hpad : pads[i]? = some pad) :
    flags.contains i = !pad.isResidue := by
  have hi := (List.getElem?_eq_some_iff.1 hpad).1
  rw [Flags.contains, hflags, Bool.eq_iff_iff, List.any_eq_true, Bool.not_eq_true']
  simp only [List.mem_map, mem_invalidPads, beq_iff_eq]
  constructor
  · rintro ⟨_, ⟨k, ⟨j, pad', hpad', hinvalid, rfl⟩, rfl⟩, hj⟩
    rw [toNat_position hsize (List.getElem?_eq_some_iff.1 hpad').1] at hj
    subst hj
    rw [hpad, Option.some_inj] at hpad'
    rw [hpad', hinvalid]
  · intro hinvalid
    exact ⟨_, ⟨_, ⟨i, pad, hpad, hinvalid, rfl⟩, rfl⟩, toNat_position hsize hi⟩

theorem get?_of_entries {flags : Flags} {reasons : List String}
    (hflags : flags.entries = (invalidPads pads).map (·, reasons))
    (hsize : pads.length ≤ UInt64.size) {i : ℕ} {pad : Element} (hpad : pads[i]? = some pad)
    (hinvalid : pad.isResidue = false) : flags.get? i = some reasons := by
  have hcontains := contains_of_entries hflags hsize hpad
  rw [hinvalid, Bool.not_false, Flags.contains, List.any_eq_true, ← List.find?_isSome,
    Option.isSome_iff_exists] at hcontains
  obtain ⟨kv, hkv⟩ := hcontains
  have hmem := List.mem_of_find?_eq_some hkv
  rw [hflags, List.mem_map] at hmem
  obtain ⟨k, -, rfl⟩ := hmem
  rw [Flags.get?, hkv, Option.map_some]

end InvalidPads

namespace Session

variable {rs : List Responder} {keys : List UInt64}

theorem contains_foldl_addFlags {flags : Flags} {i : ℕ} :
    (rs.foldl Responder.addFlags flags).contains i = true ↔
      (∃ r ∈ rs, ∃ k ∈ r.answer.invalidPads, k.toNat = i) ∨ flags.contains i = true := by
  induction rs generalizing flags with
  | nil => simp
  | cons r rs ih =>
    simp only [List.foldl_cons, ih, Responder.addFlags, Flags.contains_foldl_add, List.mem_cons,
      or_and_right, exists_or, exists_eq_left]
    exact or_left_comm.trans or_assoc.symm

theorem entries_addFlags {flags : Flags} (old : Option (List String)) (hne : rs ≠ [])
    (hrs : ∀ r ∈ rs, r.answer.invalidPads = keys) (hkeys : keys.Pairwise (· < ·))
    (hflags : flags.entries = Flags.uniform keys old) :
    (rs.foldl Responder.addFlags flags).entries =
      keys.map (·, old.getD [] ++ rs.map fun r => flagReason r.trustee) := by
  induction rs generalizing flags old with
  | nil => exact absurd rfl hne
  | cons r rs ih =>
    rw [List.forall_mem_cons] at hrs
    have hfirst : (r.addFlags flags).entries =
        Flags.uniform keys (some (old.getD [] ++ [flagReason r.trustee])) := by
      have hnothing : flags.entries = [] ++ Flags.uniform keys old := hflags
      rw [Responder.addFlags, hrs.1]
      exact Flags.entries_foldl_add hnothing (by simp) hkeys
    by_cases hnil : rs = []
    · subst hnil
      exact hfirst
    · rw [List.foldl_cons, ih _ hnil hrs.2 hfirst]
      simp

end Session

end ThresholdElGamal
