import ThresholdElGamal.Proofs.Election.Acceptance
import ThresholdElGamal.Proofs.Election.Polynomials

/-! # Dealt elections

What a dealer publishes is accepted, for every quorum between one and the number of guardians.
Whatever randomness was drawn, the roster commits to the coefficients, every trustee holds the
value of the joint polynomial at its coordinate, and the dealer knows the value at zero.
-/

namespace ThresholdElGamal

theorem SchnorrProof.check_prove (parameterBaseHash : Digest) (x index : UInt32)
    (secret oneTime : Exponent) :
    (prove parameterBaseHash x index secret oneTime).check parameterBaseHash x index
      (genPow secret) = true := by
  have hcommitment : genPow (prove parameterBaseHash x index secret oneTime).response *
      genPow secret ^ (prove parameterBaseHash x index secret oneTime).challenge =
        genPow oneTime := by
    rw [genPow_pow, genPow_mul_genPow]
    apply genPow_congr
    simp only [prove, Exponent.residue_add, Exponent.residue_mul, Exponent.residue_sub_mul]
    ring
  simp only [check, decide_eq_true_eq, hcommitment]
  rfl

namespace Dealer

theorem guardianId_injective : Function.Injective guardianId := by
  intro x y h
  have hrepr : x.toNat.repr = y.toNat.repr := by
    simp only [guardianId] at h
    exact (String.append_right_inj _).1 h
  have hdigits := congrArg (fun s : String => Nat.ofDigitChars 10 s.toList 0) hrepr
  simp only [Nat.toList_repr, Nat.ofDigitChars_ten_toDigits] at hdigits
  exact UInt32.toNat_inj.1 hdigits

theorem defects_guardian (id : String) (x : UInt32) {as us : List Exponent}
    (h : as.length = us.length) :
    (guardian id x as us).defects ElectionContext.parameterHash = [] := by
  simp only [Guardian.defects, List.append_eq_nil_iff, problemUnless_eq_nil, decide_eq_true_eq,
    List.flatMap_eq_nil_iff]
  constructor
  · simp [guardian, h]
  · rintro ⟨⟨commitment, proof⟩, j⟩ hmem
    obtain ⟨hj, hget⟩ := List.getElem?_eq_some_iff.1 (List.mk_mem_zipIdx_iff_getElem?.1 hmem)
    simp only [List.getElem_zip, Prod.mk.injEq] at hget
    obtain ⟨rfl, rfl⟩ := hget
    simp [guardian, Guardian.coefficientDefects, isResidue_genPow, SchnorrProof.check_prove]

variable {coefficients nonces : List (List Exponent)}

theorem length_guardians (h : coefficients.length = nonces.length) :
    (guardians coefficients nonces).length = coefficients.length := by
  simp [guardians, h]

theorem getElem_guardians (i : ℕ) (hi : i < (guardians coefficients nonces).length) :
    ∃ as us, coefficients[i]? = some as ∧ nonces[i]? = some us ∧
      (guardians coefficients nonces)[i] =
        guardian (guardianId (.ofNat (i + 1))) (.ofNat (i + 1)) as us := by
  obtain ⟨has, hus⟩ : i < coefficients.length ∧ i < nonces.length := by
    simpa [guardians] using hi
  exact ⟨coefficients[i], nonces[i], List.getElem?_eq_getElem _, List.getElem?_eq_getElem _,
    by simp [guardians]⟩

theorem commits_guardians (h : coefficients.length = nonces.length) :
    Commits (guardians coefficients nonces) coefficients := by
  apply List.ext_getElem
  · simp [length_guardians h]
  · intro i hi hi'
    rw [List.length_map] at hi hi'
    obtain ⟨as, us, has, -, hguardian⟩ := getElem_guardians i hi
    rw [List.getElem?_eq_getElem hi', Option.some_inj] at has
    simp [hguardian, guardian, has]

theorem distinct_guardian {i j : ℕ} (hi : i + 1 < 2 ^ 32) (hj : j + 1 < 2 ^ 32) (hne : i ≠ j)
    (as us as' us' : List Exponent) :
    Roster.Distinct (guardian (guardianId (.ofNat (i + 1))) (.ofNat (i + 1)) as us)
      (guardian (guardianId (.ofNat (j + 1))) (.ofNat (j + 1)) as' us') := by
  have hx : UInt32.ofNat (i + 1) ≠ UInt32.ofNat (j + 1) := by
    intro h
    have htoNat := congrArg UInt32.toNat h
    simp only [UInt32.toNat_ofNat', Nat.mod_eq_of_lt hi, Nat.mod_eq_of_lt hj] at htoNat
    omega
  exact ⟨fun h => hx (guardianId_injective h), hx⟩

theorem problems_guardians (h : coefficients.length = nonces.length) (hne : coefficients ≠ [])
    (hlt : coefficients.length < 2 ^ 32) (hrows : ∀ as ∈ coefficients, as ≠ []) :
    Roster.problems (guardians coefficients nonces) = [] := by
  have hlen := length_guardians h
  rw [Roster.problems_eq_nil]
  refine ⟨?_, ?_, ?_⟩
  · intro hnil
    rw [hnil, List.length_nil] at hlen
    exact hne (List.length_eq_zero_iff.1 hlen.symm)
  · intro g hg
    obtain ⟨i, hi, rfl⟩ := List.getElem_of_mem hg
    obtain ⟨as, us, has, -, hguardian⟩ := getElem_guardians i hi
    rw [hguardian]
    constructor
    · rw [UInt32.lt_iff_toNat_lt]
      simp only [guardian, UInt32.toNat_ofNat', UInt32.toNat_zero]
      rw [Nat.mod_eq_of_lt (by omega)]
      omega
    · simpa [guardian] using hrows as (List.mem_of_getElem? has)
  · rw [List.pairwise_iff_getElem]
    intro i j hi hj hij
    obtain ⟨as, us, -, -, hguardian⟩ := getElem_guardians i hi
    obtain ⟨as', us', -, -, hguardian'⟩ := getElem_guardians j hj
    rw [hguardian, hguardian']
    exact distinct_guardian (by omega) (by omega) (by omega) _ _ _ _

variable {quorum : UInt32} {manifest : String} {ttl : ℕ}

theorem problems_context {r : Roster} (hr : r.guardians = guardians coefficients nonces)
    (h : coefficients.length = nonces.length) (hlt : coefficients.length < 2 ^ 32)
    (hquorum : 1 ≤ quorum.toNat) (hle : quorum.toNat ≤ coefficients.length)
    (hrows : ∀ as ∈ coefficients, as.length = quorum.toNat)
    (hnonces : ∀ us ∈ nonces, us.length = quorum.toNat) :
    ElectionContext.problems r quorum = [] := by
  rw [ElectionContext.problems_eq_nil, UInt32.le_iff_toNat_le, UInt32.le_iff_toNat_le,
    UInt32.toNat_ofNat', Roster.size, hr, length_guardians h, Nat.mod_eq_of_lt hlt]
  refine ⟨⟨hquorum, hle⟩, ?_⟩
  intro g hg
  obtain ⟨i, hi, rfl⟩ := List.getElem_of_mem hg
  obtain ⟨as, us, has, hus, hguardian⟩ := getElem_guardians i hi
  have haslen := hrows as (List.mem_of_getElem? has)
  have huslen := hnonces us (List.mem_of_getElem? hus)
  rw [hguardian]
  constructor
  · simp [guardian, haslen]
  · exact defects_guardian _ _ (haslen.trans huslen.symm)

theorem deal_ok (manifest : String) (ttl : ℕ) (h : coefficients.length = nonces.length)
    (hlt : coefficients.length < 2 ^ 32)
    (hquorum : 1 ≤ quorum.toNat) (hle : quorum.toNat ≤ coefficients.length)
    (hrows : ∀ as ∈ coefficients, as.length = quorum.toNat)
    (hnonces : ∀ us ∈ nonces, us.length = quorum.toNat) :
    ∃ e, deal manifest quorum ttl coefficients nonces = .ok e := by
  have hproblems : Roster.problems (guardians coefficients nonces) = [] := by
    apply problems_guardians h _ hlt
    · rintro as has rfl
      have := hrows [] has
      simp only [List.length_nil] at this
      omega
    · rintro rfl
      simp only [List.length_nil] at hle
      omega
  obtain ⟨roster, hroster, hguardians⟩ := Roster.ofGuardians_ok hproblems
  obtain ⟨context, hcontext⟩ := ElectionContext.derive_ok manifest
    (problems_context hguardians h hlt hquorum hle hrows hnonces)
  simp only [deal, hroster, Except.mapError, bind, Except.bind, hcontext]
  exact ⟨_, rfl⟩

theorem deal_eq_ok {e : DealtElection}
    (h : deal manifest quorum ttl coefficients nonces = .ok e) :
    e.roster.guardians = guardians coefficients nonces ∧
      ElectionContext.derive manifest e.roster quorum = .ok e.context ∧
      e.trustees = List.zipWith (keyHolder coefficients ttl) coefficients e.roster.guardians ∧
      e.secretKey = secretKey coefficients := by
  unfold deal at h
  cases hr : Roster.ofGuardians (guardians coefficients nonces) with
  | error problems =>
    rw [hr] at h
    cases h
  | ok roster =>
    rw [hr] at h
    cases hc : ElectionContext.derive manifest roster quorum with
    | error problems =>
      simp [Except.mapError, bind, Except.bind, hc] at h
    | ok context =>
      simp only [Except.mapError, bind, Except.bind, hc, pure, Except.pure, Except.ok.injEq] at h
      subst h
      exact ⟨Roster.ofGuardians_eq_ok hr, hc, rfl, rfl⟩

/-- What the coefficients of a dealt election determine. -/
structure DealtWith (e : DealtElection) (coefficients : List (List Exponent)) : Prop where
  commits : Commits e.roster.guardians coefficients
  derived : ∃ manifest, ElectionContext.derive manifest e.roster e.context.quorum = .ok e.context
  share : ∀ u ∈ e.trustees, u.keyShare = keyShare coefficients u.profile.xCoordinate
  secret : e.secretKey = secretKey coefficients
  names : e.trustees.map (·.profile.id) = e.roster.guardians.map (·.id)
  published : ∀ u ∈ e.trustees, ∃ g ∈ e.roster.guardians, g.id = u.profile.id ∧
    g.publicKey? = some u.profile.publicKey ∧ g.xCoordinate = u.profile.xCoordinate

theorem publicKey?_of_commits {gs : List Guardian} {i : ℕ} {g : Guardian} {as : List Exponent}
    (h : Commits gs coefficients) (hg : gs[i]? = some g) (has : coefficients[i]? = some as)
    (hne : g.commitments ≠ []) : g.publicKey? = some (genPow (as.headD .zero)) := by
  have hcommitments := congrArg (·[i]?) h
  simp only [List.getElem?_map, hg, has, Option.map_some, Option.some_inj] at hcommitments
  rw [Guardian.publicKey?, hcommitments]
  cases as with
  | nil => exact absurd hcommitments hne
  | cons a as => rfl

theorem dealtWith_of_deal {e : DealtElection} (h : coefficients.length = nonces.length)
    (hdeal : deal manifest quorum ttl coefficients nonces = .ok e) : DealtWith e coefficients := by
  obtain ⟨hguardians, hcontext, htrustees, hsecret⟩ := deal_eq_ok hdeal
  have hcommits : Commits e.roster.guardians coefficients := hguardians ▸ commits_guardians h
  have hlength : coefficients.length = e.roster.guardians.length := by
    rw [hguardians, length_guardians h]
  have hentry : ∀ u ∈ e.trustees, ∃ (i : ℕ) (as : List Exponent) (g : Guardian),
      coefficients[i]? = some as ∧ e.roster.guardians[i]? = some g ∧
        u = keyHolder coefficients ttl as g := by
    intro u hu
    rw [htrustees] at hu
    obtain ⟨i, hi, rfl⟩ := List.getElem_of_mem hu
    obtain ⟨hi₁, hi₂⟩ : i < coefficients.length ∧ i < e.roster.guardians.length := by
      simpa using hi
    exact ⟨i, coefficients[i], e.roster.guardians[i], List.getElem?_eq_getElem hi₁,
      List.getElem?_eq_getElem hi₂, List.getElem_zipWith⟩
  refine ⟨hcommits, ⟨manifest, ?_⟩, ?_, hsecret, ?_, ?_⟩
  · rw [(ElectionContext.derive_eq_ok hcontext).2.1]
    exact hcontext
  · intro u hu
    obtain ⟨i, as, g, -, -, rfl⟩ := hentry u hu
    rfl
  · rw [htrustees, List.map_zipWith]
    apply List.ext_getElem
    · simp [hlength]
    · intro i hi hi'
      simp [keyHolder, KeyHolder.new]
  · intro u hu
    obtain ⟨i, as, g, has, hg, rfl⟩ := hentry u hu
    have hmem := List.mem_of_getElem? hg
    have hne := Roster.commitments_ne_nil hmem
    exact ⟨g, hmem, rfl, publicKey?_of_commits hcommits hg has hne, rfl⟩

theorem DealtWith.jointPublicKey {e : DealtElection} (h : DealtWith e coefficients) :
    e.context.jointPublicKey = genPow e.secretKey := by
  obtain ⟨manifest, hderive⟩ := h.derived
  rw [(ElectionContext.derive_eq_ok hderive).2.2.1, h.commits.jointPublicKey, h.secret]

section Generate

variable {σ α β : Type}

theorem run_bind_eq_some {x : StateT σ Option α} {f : α → StateT σ Option β} {s s' : σ} {y : β} :
    (x >>= f).run s = some (y, s') ↔
      ∃ a s₁, x.run s = some (a, s₁) ∧ (f a).run s₁ = some (y, s') := by
  simp only [StateT.run_bind, Option.bind_eq_bind, Option.bind_eq_some_iff, Prod.exists]

theorem run_pure_eq_some {x y : α} {s s' : σ} :
    (pure x : StateT σ Option α).run s = some (y, s') ↔ x = y ∧ s = s' := by
  simp only [StateT.run_pure, Option.pure_def, Option.some.injEq, Prod.mk.injEq]

theorem forall₂_of_mapM {f : α → StateT σ Option β} {l : List α} {s s' : σ} {ys : List β}
    (h : (l.mapM f).run s = some (ys, s')) :
    List.Forall₂ (fun x y => ∃ before after, (f x).run before = some (y, after)) l ys := by
  induction l generalizing ys s s' with
  | nil =>
    rw [List.mapM_nil, run_pure_eq_some] at h
    obtain ⟨rfl, -⟩ := h
    exact .nil
  | cons x l ih =>
    simp only [List.mapM_cons, run_bind_eq_some, run_pure_eq_some] at h
    obtain ⟨y, s₁, hy, zs, s₂, hzs, rfl, -⟩ := h
    exact .cons ⟨s, s₁, hy⟩ (ih hzs)

theorem rel_of_mapM {f : α → StateT σ Option β} {x? : Option α} {s s' : σ} {y? : Option β}
    (h : (x?.mapM f).run s = some (y?, s')) :
    Option.Rel (fun x y => ∃ before after, (f x).run before = some (y, after)) x? y? := by
  cases x? with
  | none =>
    rw [Option.mapM_none, run_pure_eq_some] at h
    obtain ⟨rfl, -⟩ := h
    exact .none
  | some x =>
    simp only [Option.mapM_some, StateT.run_map, Option.map_eq_map, Option.map_eq_some_iff,
      Prod.exists, Prod.mk.injEq] at h
    obtain ⟨y, after, hy, rfl, -⟩ := h
    exact .some ⟨s, after, hy⟩

theorem length_of_mapM {f : α → StateT σ Option β} {l : List α} {s s' : σ} {ys : List β}
    (h : (l.mapM f).run s = some (ys, s')) : ys.length = l.length :=
  (forall₂_of_mapM h).length_eq.symm

theorem mapM_total {f : α → StateT σ Option β} {P : β → Prop}
    (hf : ∀ x s, ∃ y s', (f x).run s = some (y, s') ∧ P y) (l : List α) (s : σ) :
    ∃ ys s', (l.mapM f).run s = some (ys, s') ∧ ys.length = l.length ∧ ∀ y ∈ ys, P y := by
  induction l generalizing s with
  | nil => exact ⟨[], s, by simp⟩
  | cons x l ih =>
    obtain ⟨y, s₁, hy, hPy⟩ := hf x s
    obtain ⟨ys, s₂, hys, hlen, hPys⟩ := ih s₁
    exact ⟨y :: ys, s₂, by simp [hy, hys], by simp [hlen], List.forall_mem_cons.2 ⟨hPy, hPys⟩⟩

variable {draw : StateT σ Option Exponent} {n : UInt32}

/-- A source that never runs dry yields coefficients and nonces for every guardian. -/
theorem exists_deal (draw : StateT σ Option Exponent)
    (hdraw : ∀ s, ∃ w s', draw.run s = some (w, s')) (manifest : String) (n quorum : UInt32)
    (ttl : ℕ) (s : σ) :
    ∃ coefficients nonces s', (generate draw manifest n quorum ttl).run s =
        some (deal manifest quorum ttl coefficients nonces, s') ∧
      coefficients.length = n.toNat ∧ nonces.length = n.toNat ∧
        (∀ as ∈ coefficients, as.length = quorum.toNat) ∧
          ∀ us ∈ nonces, us.length = quorum.toNat := by
  have hrow : ∀ (_ : ℕ) (s : σ), ∃ as s', (draws draw quorum.toNat).run s = some (as, s') ∧
      as.length = quorum.toNat := by
    intro _ s
    obtain ⟨as, s', has, hlen, -⟩ := mapM_total (f := fun _ : ℕ => draw) (P := fun _ => True)
      (fun _ s => by simpa using hdraw s) (List.range quorum.toNat) s
    exact ⟨as, s', has, by simpa using hlen⟩
  obtain ⟨coefficients, s₁, hcoefficients, hlen, hrows⟩ :=
    mapM_total hrow (List.range n.toNat) s
  obtain ⟨nonces, s₂, hnonces, hlen', hrows'⟩ := mapM_total hrow (List.range n.toNat) s₁
  rw [List.length_range] at hlen hlen'
  exact ⟨coefficients, nonces, s₂, by simp [generate, hcoefficients, hnonces], hlen, hlen', hrows,
    hrows'⟩

theorem dealtWith_of_generate {e : DealtElection} {s s' : σ}
    (h : (generate draw manifest n quorum ttl).run s = some (.ok e, s')) :
    (∃ coefficients, DealtWith e coefficients) ∧ e.roster.size = n.toNat ∧
      e.context.quorum = quorum ∧ ∀ u ∈ e.trustees, u.tickets = { ttl } := by
  simp only [generate, run_bind_eq_some, run_pure_eq_some] at h
  obtain ⟨coefficients, s₁, hcoefficients, nonces, s₂, hnonces, hdeal, -⟩ := h
  have hlength := (length_of_mapM hcoefficients).trans (length_of_mapM hnonces).symm
  obtain ⟨hguardians, hcontext, htrustees, -⟩ := deal_eq_ok hdeal
  refine ⟨⟨coefficients, dealtWith_of_deal hlength hdeal⟩, ?_, ?_, ?_⟩
  · rw [Roster.size, hguardians, length_guardians hlength, length_of_mapM hcoefficients,
      List.length_range]
  · exact (ElectionContext.derive_eq_ok hcontext).2.1
  · intro u hu
    rw [htrustees] at hu
    obtain ⟨i, hi, rfl⟩ := List.getElem_of_mem hu
    rw [List.getElem_zipWith]
    rfl

theorem jointPublicKey_of_generate {e : DealtElection} {s s' : σ}
    (h : (generate draw manifest n quorum ttl).run s = some (.ok e, s')) :
    e.context.jointPublicKey = genPow e.secretKey := by
  obtain ⟨⟨coefficients, hwith⟩, -⟩ := dealtWith_of_generate h
  exact hwith.jointPublicKey

end Generate

end Dealer

end ThresholdElGamal
