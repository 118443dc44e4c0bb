import ThresholdElGamal.Proofs.Decryption.Acceptance

/-! # Dealt elections are consistent

A dealer succeeds exactly for the quorums between one and the number of guardians. What it then
publishes fits together: every coefficient is proven, the joint key belongs to the secret key, and
every trustee stands for a guardian and holds the exponent of the share key that the roster keeps
for it, so that every quorum of the trustees can form a decryptor.
-/

namespace ThresholdElGamal.Dealer

section Deal

variable {coefficients nonces : List (List Exponent)} {manifest : String} {n quorum : UInt32}
  {ttl : ℕ}

theorem ne_nil_of_deal {problems : List Problem}
    (h : deal manifest quorum ttl coefficients nonces = .error problems) : problems ≠ [] := by
  unfold deal at h
  cases hr : Roster.ofGuardians (guardians coefficients nonces) with
  | error ps =>
    rw [hr] at h
    cases h
    simpa using Roster.ne_nil_of_ofGuardians hr
  | ok roster =>
    rw [hr] at h
    cases hc : ElectionContext.derive manifest roster quorum with
    | error ps =>
      simp only [Except.mapError, bind, Except.bind, hc, Except.error.injEq] at h
      subst h
      simpa using ElectionContext.ne_nil_of_derive hc
    | ok context => simp [Except.mapError, bind, Except.bind, hc, pure, Except.pure] at h

/-- Dealing succeeds exactly for a quorum of one up to all guardians. -/
theorem deal_ok_iff (hlength : coefficients.length = n.toNat) (hlength' : nonces.length = n.toNat)
    (hrows : ∀ as ∈ coefficients, as.length = quorum.toNat)
    (hrows' : ∀ us ∈ nonces, us.length = quorum.toNat) :
    (∃ e, deal manifest quorum ttl coefficients nonces = .ok e) ↔ 1 ≤ quorum ∧ quorum ≤ n := by
  have hlengths : coefficients.length = nonces.length := hlength.trans hlength'.symm
  constructor
  · rintro ⟨e, he⟩
    obtain ⟨hguardians, hderive, -, -⟩ := deal_eq_ok he
    have hquorum := (ElectionContext.problems_eq_nil.1 (ElectionContext.derive_eq_ok hderive).1).1
    rwa [Roster.size, hguardians, length_guardians hlengths, hlength, UInt32.ofNat_toNat] at hquorum
  · rintro ⟨hquorum, hle⟩
    exact deal_ok manifest ttl hlengths (hlength ▸ n.toNat_lt) (UInt32.le_iff_toNat_le.1 hquorum)
      (hlength ▸ UInt32.le_iff_toNat_le.1 hle) hrows hrows'

end Deal

/-- An election for so many guardians in which all records and shares fit together. -/
structure Consistent (n quorum : UInt32) (e : DealtElection) : Prop where
  size_eq : e.roster.size = n.toNat
  quorum_eq : e.context.quorum = quorum
  trustees : e.trustees.map (·.profile.id) = e.roster.guardians.map (·.id)
  proven : ∀ g ∈ e.roster.guardians, g.defects ElectionContext.parameterHash = []
  jointPublicKey : e.context.jointPublicKey = genPow e.secretKey
  publicKey : ∀ u ∈ e.trustees, ∃ g, e.roster.get? u.profile.id = some g ∧
    g.xCoordinate = u.profile.xCoordinate ∧ g.commitments.head? = some u.profile.publicKey
  shareKey : ∀ u ∈ e.trustees, e.roster.shareKey? u.profile.id = some (genPow u.keyShare)
  /-- Different trustees, as many as the quorum asks for, form a decryptor in any order. -/
  accepted : ∀ us : List KeyHolder, us.Nodup → us ⊆ e.trustees → quorum.toNat ≤ us.length →
    ∀ config, ∃ d, Decryptor.new e.context e.roster (us.map (·.profile)) config = .ok d

section DealtWith

variable {e : DealtElection} {coefficients : List (List Exponent)} (h : DealtWith e coefficients)
include h

theorem DealtWith.get? {u : KeyHolder} (hu : u ∈ e.trustees) :
    ∃ g, e.roster.get? u.profile.id = some g ∧ g.xCoordinate = u.profile.xCoordinate ∧
      g.publicKey? = some u.profile.publicKey := by
  obtain ⟨g, hg, hid, hpublicKey, hx⟩ := h.published u hu
  exact ⟨g, hid ▸ Roster.get?_of_mem hg, hx, hpublicKey⟩

theorem DealtWith.shareKey? {u : KeyHolder} (hu : u ∈ e.trustees) :
    e.roster.shareKey? u.profile.id = some (genPow u.keyShare) := by
  obtain ⟨g, hg, hx, -⟩ := h.get? hu
  rw [Roster.shareKey?_of_get? hg, h.commits.jointValue, hx, h.share u hu]

theorem DealtWith.nodup_ids {us : List KeyHolder} (hnodup : us.Nodup) (hus : us ⊆ e.trustees) :
    (us.map (·.profile.id)).Nodup := by
  have hnames : (e.trustees.map (·.profile.id)).Nodup := h.names ▸ Roster.nodup_ids
  refine hnodup.map_on ?_
  intro u hu v hv
  exact List.inj_on_of_nodup_map hnames (hus hu) (hus hv)

theorem DealtWith.consistent {n : UInt32} (hsize : e.roster.size = n.toNat) :
    Consistent n e.context.quorum e where
  size_eq := hsize
  quorum_eq := rfl
  trustees := h.names
  proven g hg := by
    obtain ⟨manifest, hderive⟩ := h.derived
    exact ((ElectionContext.problems_eq_nil.1 (ElectionContext.derive_eq_ok hderive).1).2 g hg).2
  jointPublicKey := h.jointPublicKey
  publicKey _ hu := h.get? hu
  shareKey _ hu := h.shareKey? hu
  accepted _ hnodup hus hquorum :=
    Decryptor.new_ok_of_dealt h (hsize ▸ n.toNat_lt) hus (h.nodup_ids hnodup hus) hquorum

end DealtWith

variable {σ : Type}

/-- From a source that never runs dry an election is dealt exactly for the quorums between one and
the number of guardians, and every election that is dealt is consistent. -/
theorem generate_consistent {draw : StateT σ Option Exponent}
    (hdraw : ∀ s, ∃ w s', draw.run s = some (w, s')) (manifest : String) (n quorum : UInt32)
    (ttl : ℕ) (source : σ) :
    ∃ result rest, (generate draw manifest n quorum ttl).run source = some (result, rest) ∧
      ((∃ e, result = .ok e) ↔ 1 ≤ quorum ∧ quorum ≤ n) ∧
      (∀ problems, result = .error problems → problems ≠ []) ∧
      ∀ e, result = .ok e → Consistent n quorum e := by
  obtain ⟨coefficients, nonces, rest, hrun, hlength, hlength', hrows, hrows'⟩ :=
    exists_deal draw hdraw manifest n quorum ttl source
  refine ⟨_, rest, hrun, deal_ok_iff hlength hlength' hrows hrows', ?_, ?_⟩
  · exact fun problems h => ne_nil_of_deal h
  · intro e he
    rw [he] at hrun
    obtain ⟨⟨_, hwith⟩, hsize, rfl, -⟩ := dealtWith_of_generate hrun
    exact hwith.consistent hsize

/-- The source that counts. -/
def counting : StateT ℕ Option Exponent := fun i => some (⟨i⟩, i + 1)

theorem generate_consistent_two_of_three :
    (∀ s, ∃ w s', counting.run s = some (w, s')) ∧
    ∃ e rest, (generate counting "manifest" 3 2 1).run 5 = some (.ok e, rest) ∧
      Consistent 3 2 e := by
  have hdraw : ∀ s, ∃ w s', counting.run s = some (w, s') := fun s => ⟨⟨s⟩, s + 1, rfl⟩
  obtain ⟨result, rest, hrun, hok, -, hconsistent⟩ := generate_consistent hdraw "manifest" 3 2 1 5
  obtain ⟨e, rfl⟩ := hok.2 ⟨by decide, by decide⟩
  exact ⟨hdraw, e, rest, hrun, hconsistent e rfl⟩

end ThresholdElGamal.Dealer
