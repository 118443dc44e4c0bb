import ThresholdElGamal.Decryption.Decryptor
import ThresholdElGamal.Proofs.Election.Dealing

/-! # What accepted decryptors satisfy

The trustees of a decryptor stand for different guardians of its roster, at the coordinates of
these, and are at least as many as the quorum. When the roster commits to coefficients, every
quorum of them holds shares whose weighted sum is the secret behind the joint key.
-/

namespace ThresholdElGamal.Decryptor

/-- The trustee stands for a guardian of the roster. -/
def Fits (roster : Roster) (t : TrusteeProfile) : Prop :=
  ∃ g, roster.get? t.id = some g ∧ g.publicKey? = some t.publicKey ∧ g.xCoordinate = t.xCoordinate

theorem mismatches_eq_nil {roster : Roster} {earlier : List TrusteeProfile} {t : TrusteeProfile} :
    mismatches roster earlier t = [] ↔ Fits roster t ∧ ∀ e ∈ earlier, e.id ≠ t.id := by
  simp only [mismatches, List.append_eq_nil_iff, problemUnless_eq_nil, List.all_eq_true,
    bne_iff_ne, Fits]
  cases roster.get? t.id with
  | none => simp
  | some g => simp [and_comm]

theorem trusteeProblems_eq_nil {roster : Roster} {earlier ts : List TrusteeProfile} :
    trusteeProblems roster earlier ts = [] ↔
      (∀ t ∈ ts, Fits roster t) ∧ (∀ t ∈ ts, ∀ e ∈ earlier, e.id ≠ t.id) ∧
        ts.Pairwise fun t u => t.id ≠ u.id := by
  induction ts generalizing earlier with
  | nil => simp [trusteeProblems]
  | cons t ts ih =>
    simp only [trusteeProblems, List.append_eq_nil_iff, List.map_eq_nil_iff, mismatches_eq_nil, ih,
      List.forall_mem_cons, List.pairwise_cons, List.forall_mem_append]
    constructor
    · rintro ⟨⟨ht, he⟩, hts, hes, hpair⟩
      refine ⟨⟨ht, hts⟩, ⟨he, fun u hu => (hes u hu).1⟩, ?_, hpair⟩
      exact fun u hu => (hes u hu).2.1
    · rintro ⟨⟨ht, hts⟩, ⟨he, hes⟩, hhead, hpair⟩
      exact ⟨⟨ht, he⟩, hts, fun u hu => ⟨hes u hu, hhead u hu, by simp⟩, hpair⟩

theorem new_eq_ok {context : ElectionContext} {roster : Roster} {trustees : List TrusteeProfile}
    {config : DecryptionConfig} {d : Decryptor} (h : new context roster trustees config = .ok d) :
    d.context = context ∧ d.roster = roster ∧ d.trustees = trustees ∧ d.config = config := by
  simp only [new] at h
  split at h
  · cases h
    exact ⟨rfl, rfl, rfl, rfl⟩
  · cases h

variable {d : Decryptor}

theorem problems_eq_nil : d.context.jointPublicKey = d.roster.jointPublicKey ∧
    d.context.quorum.toNat ≤ d.trustees.length ∧ (∀ t ∈ d.trustees, Fits d.roster t) ∧
      d.trustees.Pairwise fun t u => t.id ≠ u.id := by
  have h := d.accepted
  simp only [problems, List.append_eq_nil_iff, problemUnless_eq_nil, decide_eq_true_eq,
    trusteeProblems_eq_nil] at h
  obtain ⟨⟨⟨-, hkey⟩, hquorum⟩, hfits, -, hpair⟩ := h
  exact ⟨hkey, hquorum, hfits, hpair⟩

theorem nodup_ids (d : Decryptor) : (d.trustees.map (·.id)).Nodup :=
  List.pairwise_map.2 d.problems_eq_nil.2.2.2

theorem nodup_coordinates : (d.trustees.map (·.xCoordinate)).Nodup := by
  obtain ⟨-, -, hfits, hpair⟩ := d.problems_eq_nil
  refine List.pairwise_map.2 (hpair.imp_of_mem ?_)
  intro t u ht hu hid hx
  obtain ⟨g, hg, -, hgx⟩ := hfits t ht
  obtain ⟨h, hh, -, hhx⟩ := hfits u hu
  obtain ⟨hgmem, hgid⟩ := Roster.mem_of_get? hg
  obtain ⟨hhmem, hhid⟩ := Roster.mem_of_get? hh
  have heq : g = h := Roster.eq_of_xCoordinate hgmem hhmem (by rw [hgx, hhx, hx])
  exact hid (by rw [← hgid, ← hhid, heq])

theorem shareKey?_eq {t : TrusteeProfile} (ht : t ∈ d.trustees) :
    d.roster.shareKey? t.id = some (Roster.jointValue d.roster.guardians t.xCoordinate) := by
  obtain ⟨-, -, hfits, -⟩ := d.problems_eq_nil
  obtain ⟨g, hg, -, hx⟩ := hfits t ht
  rw [Roster.shareKey?_of_get? hg, hx]

/-- The roster commits to the coefficients, no more for each guardian than the quorum says. -/
structure Backing (d : Decryptor) (coefficients : List (List Exponent)) : Prop where
  commits : Commits d.roster.guardians coefficients
  rows : ∀ as ∈ coefficients, as.length ≤ d.context.quorum.toNat

namespace Backing

variable {coefficients : List (List Exponent)} (h : d.Backing coefficients)
include h

theorem jointPublicKey : d.context.jointPublicKey = genPow (Dealer.secretKey coefficients) := by
  rw [d.problems_eq_nil.1, h.commits.jointPublicKey]

theorem shareKey? {t : TrusteeProfile} (ht : t ∈ d.trustees) :
    d.roster.shareKey? t.id = some (genPow (Dealer.keyShare coefficients t.xCoordinate)) := by
  rw [shareKey?_eq ht, h.commits.jointValue]

theorem sum_weight_keyShare {ts : List TrusteeProfile} (hts : ts.Sublist d.trustees)
    (hquorum : d.context.quorum.toNat ≤ ts.length) :
    (ts.map fun t => (lagrangeWeight t.xCoordinate (ts.map (·.xCoordinate))).residue *
      (Dealer.keyShare coefficients t.xCoordinate).residue).sum =
        (Dealer.secretKey coefficients).residue := by
  have hnodup : (ts.map (·.xCoordinate)).Nodup := d.nodup_coordinates.sublist (hts.map _)
  rw [← Dealer.sum_weight_keyShare h.rows hnodup (by simpa using hquorum), List.map_map]
  rfl

end Backing

variable {manifest : String} {r : Roster} {quorum : UInt32} {context : ElectionContext}
  {trustees : List TrusteeProfile} {config : DecryptionConfig}

theorem backing_of_commits {coefficients : List (List Exponent)}
    (hderive : ElectionContext.derive manifest r quorum = .ok context)
    (hnew : new context r trustees config = .ok d) (hcommits : Commits r.guardians coefficients) :
    d.Backing coefficients := by
  obtain ⟨rfl, rfl, -, -⟩ := new_eq_ok hnew
  refine ⟨hcommits, hcommits.length_le fun g hg => ?_⟩
  rw [(ElectionContext.commitments_of_derive hderive hg).1,
    (ElectionContext.derive_eq_ok hderive).2.1]

theorem exists_backing (hderive : ElectionContext.derive manifest r quorum = .ok context)
    (hnew : new context r trustees config = .ok d) : ∃ coefficients, d.Backing coefficients := by
  obtain ⟨coefficients, hcommits⟩ :=
    exists_commits fun g hg => (ElectionContext.commitments_of_derive hderive hg).2
  exact ⟨coefficients, backing_of_commits hderive hnew hcommits⟩

/-- A decryptor accepts every quorum of dealt trustees, in any order. -/
theorem new_ok_of_dealt {e : DealtElection} {coefficients : List (List Exponent)}
    (h : Dealer.DealtWith e coefficients) (hsize : e.roster.size < 2 ^ 32) {ts : List KeyHolder}
    (hts : ∀ u ∈ ts, u ∈ e.trustees) (hids : (ts.map (·.profile.id)).Nodup)
    (hquorum : e.context.quorum.toNat ≤ ts.length) (config : DecryptionConfig) :
    ∃ d, new e.context e.roster (ts.map (·.profile)) config = .ok d := by
  obtain ⟨m, hderive⟩ := h.derived
  obtain ⟨-, -, hkey, hcount⟩ := ElectionContext.derive_eq_ok hderive
  have hnil : problems e.context e.roster (ts.map (·.profile)) = [] := by
    simp only [problems, List.append_eq_nil_iff, problemUnless_eq_nil, decide_eq_true_eq,
      trusteeProblems_eq_nil, List.length_map, hkey, hcount, UInt32.toNat_ofNat',
      Nat.mod_eq_of_lt hsize]
    refine ⟨⟨⟨trivial, trivial⟩, hquorum⟩, ?_, by simp, ?_⟩
    · rw [List.forall_mem_map]
      intro u hu
      obtain ⟨g, hg, hid, hpublicKey, hx⟩ := h.published u (hts u hu)
      exact ⟨g, hid ▸ Roster.get?_of_mem hg, hpublicKey, hx⟩
    · exact List.pairwise_map.2 (List.pairwise_map.1 hids)
  exact ⟨_, dif_pos hnil⟩

end ThresholdElGamal.Decryptor
