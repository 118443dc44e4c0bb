import Mathlib.Data.List.Pairwise
import ThresholdElGamal.Election.Context

/-! # What accepted rosters and contexts satisfy

A roster is accepted exactly when its guardians have distinct names and distinct positive
coordinates and commit to something. A context is derived exactly when every guardian has proven
as many coefficients as the quorum asks for.
-/

namespace ThresholdElGamal

section Problems

variable {α ε : Type}

@[simp]
theorem problemUnless_eq_nil {holds : Bool} {p : α} : problemUnless holds p = [] ↔ holds := by
  cases holds <;> simp [problemUnless]

theorem eq_of_mem_problemUnless {holds : Bool} {p x : α} (h : x ∈ problemUnless holds p) :
    x = p := by
  cases holds with
  | true => cases h
  | false => exact List.mem_singleton.1 h

@[simp]
theorem unlessProblems_eq_ok {problems : List ε} {v w : α} :
    unlessProblems problems v = .ok w ↔ problems = [] ∧ v = w := by
  cases problems <;> simp [unlessProblems]

theorem unlessProblems_eq_error {problems ps : List ε} {v : α} :
    unlessProblems problems v = .error ps ↔ problems ≠ [] ∧ problems = ps := by
  cases problems <;> simp [unlessProblems]

theorem map_unlessProblems {β : Type} {f : α → β} {problems : List ε} {value : α} :
    (unlessProblems problems value).map f = unlessProblems problems (f value) := by
  unfold unlessProblems
  split <;> rfl

end Problems

namespace Roster

/-- The guardians can stand on one roster. -/
def Distinct (g h : Guardian) : Prop := g.id ≠ h.id ∧ g.xCoordinate ≠ h.xCoordinate

instance : Std.Symm Distinct := ⟨fun _ _ h => ⟨h.1.symm, h.2.symm⟩⟩

theorem problemsOf_eq_nil {earlier : List Guardian} {g : Guardian} :
    problemsOf earlier g = [] ↔
      (0 < g.xCoordinate ∧ g.commitments ≠ []) ∧ ∀ e ∈ earlier, Distinct e g := by
  simp only [problemsOf, List.append_eq_nil_iff, problemUnless_eq_nil, List.all_eq_true, bne_iff_ne,
    decide_eq_true_eq, Bool.not_eq_true', List.isEmpty_eq_false_iff, Distinct]
  constructor
  · rintro ⟨⟨⟨hid, hpos⟩, hx⟩, hc⟩
    exact ⟨⟨hpos, hc⟩, fun e he => ⟨hid e he, hx e he⟩⟩
  · rintro ⟨⟨hpos, hc⟩, hall⟩
    exact ⟨⟨⟨fun e he => (hall e he).1, hpos⟩, fun e he => (hall e he).2⟩, hc⟩

theorem problemsFrom_eq_nil {earlier gs : List Guardian} :
    problemsFrom earlier gs = [] ↔
      (∀ g ∈ gs, 0 < g.xCoordinate ∧ g.commitments ≠ []) ∧
        (∀ g ∈ gs, ∀ e ∈ earlier, Distinct e g) ∧ gs.Pairwise Distinct := by
  induction gs generalizing earlier with
  | nil => simp [problemsFrom]
  | cons g gs ih =>
    simp only [problemsFrom, List.append_eq_nil_iff, problemsOf_eq_nil, ih, List.forall_mem_cons,
      List.pairwise_cons, List.forall_mem_append]
    constructor
    · rintro ⟨⟨hg, he⟩, hgs, hes, hpair⟩
      refine ⟨⟨hg, hgs⟩, ⟨he, fun h hh => (hes h hh).1⟩, ?_, hpair⟩
      exact fun h hh => (hes h hh).2.1
    · rintro ⟨⟨hg, hgs⟩, ⟨he, hes⟩, hhead, hpair⟩
      exact ⟨⟨hg, he⟩, hgs, fun h hh => ⟨hes h hh, hhead h hh, by simp⟩, hpair⟩

theorem problems_eq_nil {gs : List Guardian} :
    problems gs = [] ↔ gs ≠ [] ∧ (∀ g ∈ gs, 0 < g.xCoordinate ∧ g.commitments ≠ []) ∧
      gs.Pairwise Distinct := by
  simp [problems, problemsFrom_eq_nil]

variable (r : Roster)

theorem pairwise_distinct : r.guardians.Pairwise Distinct :=
  (problems_eq_nil.1 r.accepted).2.2

variable {r}

theorem coordinate_pos {g : Guardian} (hg : g ∈ r.guardians) : 0 < g.xCoordinate :=
  ((problems_eq_nil.1 r.accepted).2.1 g hg).1

theorem commitments_ne_nil {g : Guardian} (hg : g ∈ r.guardians) : g.commitments ≠ [] :=
  ((problems_eq_nil.1 r.accepted).2.1 g hg).2

theorem eq_of_xCoordinate {g h : Guardian} (hg : g ∈ r.guardians) (hh : h ∈ r.guardians)
    (hx : g.xCoordinate = h.xCoordinate) : g = h := by
  by_contra hne
  exact (r.pairwise_distinct.forall hg hh hne).2 hx

theorem eq_of_id {g h : Guardian} (hg : g ∈ r.guardians) (hh : h ∈ r.guardians)
    (hid : g.id = h.id) : g = h := by
  by_contra hne
  exact (r.pairwise_distinct.forall hg hh hne).1 hid

theorem nodup_ids : (r.guardians.map (·.id)).Nodup :=
  List.pairwise_map.2 (r.pairwise_distinct.imp fun hd => hd.1)

theorem mem_of_get? {id : String} {g : Guardian} (h : r.get? id = some g) :
    g ∈ r.guardians ∧ g.id = id := by
  constructor
  · exact List.mem_of_find?_eq_some h
  · simpa using List.find?_some h

theorem get?_of_mem {g : Guardian} (hg : g ∈ r.guardians) : r.get? g.id = some g := by
  obtain ⟨h, hh⟩ : ∃ h, r.get? g.id = some h :=
    Option.isSome_iff_exists.1 (List.find?_isSome.2 ⟨g, hg, by simp⟩)
  obtain ⟨hmem, hid⟩ := mem_of_get? hh
  rw [hh, eq_of_id hmem hg hid]

theorem shareKey?_of_get? {id : String} {g : Guardian} (h : r.get? id = some g) :
    r.shareKey? id = some (jointValue r.guardians g.xCoordinate) := by
  obtain ⟨hid, i, hi, hget, hbefore⟩ := List.find?_eq_some_iff_getElem.1 h
  have hposition : r.position? id = some i := by
    refine List.findIdx?_eq_some_iff_getElem.2 ⟨hi, by rwa [hget], ?_⟩
    intro j hj
    simpa using hbefore j hj
  rw [shareKey?, hposition, Option.bind_some, r.shareKeys_eq, List.getElem?_map,
    List.getElem?_eq_getElem hi, hget, Option.map_some]

theorem ofGuardians_ok {gs : List Guardian} (h : problems gs = []) :
    ∃ r, ofGuardians gs = .ok r ∧ r.guardians = gs :=
  ⟨{ guardians := gs, accepted := h }, dif_pos h, rfl⟩

theorem ne_nil_of_ofGuardians {gs : List Guardian} {ps : List Problem}
    (h : ofGuardians gs = .error ps) : ps ≠ [] := by
  simp only [ofGuardians] at h
  split at h
  · cases h
  · next hne =>
    cases h
    exact hne

theorem ofGuardians_eq_ok {gs : List Guardian} (h : ofGuardians gs = .ok r) : r.guardians = gs := by
  simp only [ofGuardians] at h
  split at h
  · cases h
    rfl
  · cases h

end Roster

namespace ElectionContext

variable {manifest : String} {r : Roster} {quorum : UInt32} {context : ElectionContext}

theorem problems_eq_nil : problems r quorum = [] ↔
    (1 ≤ quorum ∧ quorum ≤ UInt32.ofNat r.size) ∧ ∀ g ∈ r.guardians,
      g.commitments.length = quorum.toNat ∧ g.defects parameterHash = [] := by
  simp only [problems, guardianProblems, List.append_eq_nil_iff, problemUnless_eq_nil,
    Bool.and_eq_true, decide_eq_true_eq, List.flatMap_eq_nil_iff, List.map_eq_nil_iff]

theorem derive_ok (manifest : String) (h : problems r quorum = []) :
    ∃ context, derive manifest r quorum = .ok context :=
  ⟨_, unlessProblems_eq_ok.2 ⟨h, rfl⟩⟩

theorem ne_nil_of_derive {ps : List Problem} (h : derive manifest r quorum = .error ps) :
    ps ≠ [] := by
  obtain ⟨hne, rfl⟩ := unlessProblems_eq_error.1 h
  exact hne

theorem derive_eq_ok (h : derive manifest r quorum = .ok context) :
    problems r quorum = [] ∧ context.quorum = quorum ∧
      context.jointPublicKey = r.jointPublicKey ∧
        context.numberOfGuardians = UInt32.ofNat r.size := by
  simp only [derive, unlessProblems_eq_ok] at h
  obtain ⟨hnil, rfl⟩ := h
  exact ⟨hnil, rfl, rfl, rfl⟩

theorem quorum_of_derive (h : derive manifest r quorum = .ok context) :
    1 ≤ context.quorum.toNat := by
  obtain ⟨hnil, rfl, -⟩ := derive_eq_ok h
  exact UInt32.le_iff_toNat_le.1 (problems_eq_nil.1 hnil).1.1

/-- The commitments behind a context are valid residues, as many for each guardian as the quorum
says. -/
theorem commitments_of_derive (h : derive manifest r quorum = .ok context) {g : Guardian}
    (hg : g ∈ r.guardians) :
    g.commitments.length = quorum.toNat ∧ ∀ c ∈ g.commitments, c.isResidue = true := by
  obtain ⟨hlength, hdefects⟩ := (problems_eq_nil.1 (derive_eq_ok h).1).2 g hg
  simp only [Guardian.defects, List.append_eq_nil_iff, problemUnless_eq_nil, decide_eq_true_eq,
    List.flatMap_eq_nil_iff] at hdefects
  obtain ⟨hproofs, hdefects⟩ := hdefects
  refine ⟨hlength, ?_⟩
  intro c hc
  obtain ⟨i, hi, rfl⟩ := List.getElem_of_mem hc
  have hi' : i < g.proofs.length := hproofs ▸ hi
  have hmem : ((g.commitments[i], g.proofs[i]), i) ∈ (g.commitments.zip g.proofs).zipIdx := by
    rw [List.mk_mem_zipIdx_iff_getElem?]
    simp [List.getElem?_zip_eq_some]
  have hdefect := hdefects _ hmem
  simp only [Guardian.coefficientDefects, List.append_eq_nil_iff, problemUnless_eq_nil] at hdefect
  exact hdefect.1

end ElectionContext

end ThresholdElGamal
