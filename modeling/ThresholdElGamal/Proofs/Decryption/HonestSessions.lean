import ThresholdElGamal.Proofs.Decryption.Committee

/-! # Sessions with an honest quorum

When the answering members of a committee are a quorum, a session over any batch ends well. Every
pad in the subgroup is raised to the secret key, whichever members answered; every other pad is
flagged by all of them; and the record verifies.
-/

namespace ThresholdElGamal

namespace Session

variable {d : Decryptor} {c : String → Circumstances} {s : Household} {texts : List Cipher}
  {p : Panel} {coefficients : List (List Exponent)} {i : ℕ} {text : Cipher}

section Panel

variable (htexts : texts ≠ []) (hhonest : p.Honest d c s texts)
include htexts hhonest

theorem partialAt_of_honest {r : Responder} (hr : r ∈ p.responders)
    (htext : texts[i]? = some text) :
    r.partialAt i = .ofShare (s r.trustee.id).keyShare (nonceAt c s r i) text.pad := by
  have hpads := pads_ne_nil htexts
  obtain ⟨u, hdecrypt, -⟩ := hhonest.decrypted r hr
  rw [Responder.partialAt, (KeyHolder.decrypt_eq_some hpads hdecrypt).1]
  simp [htext, nonceAt]

theorem flagged_of_honest (hne : p.responders ≠ []) (hsize : texts.length ≤ UInt64.size) :
    p.flagged.entries = (invalidPads (texts.map Cipher.pad)).map
      (·, p.responders.map fun r => flagReason r.trustee) := by
  have hpads := pads_ne_nil htexts
  have hinvalid : ∀ r ∈ p.responders,
      r.answer.invalidPads = invalidPads (texts.map Cipher.pad) := by
    intro r hr
    obtain ⟨u, hdecrypt, -⟩ := hhonest.decrypted r hr
    exact (KeyHolder.decrypt_eq_some hpads hdecrypt).2.1
  rw [hhonest.flagged]
  exact entries_addFlags none hne hinvalid (pairwise_invalidPads (by simpa using hsize)) rfl

theorem contains_of_honest (hne : p.responders ≠ []) (hsize : texts.length ≤ UInt64.size)
    (htext : texts[i]? = some text) : p.flagged.contains i = !text.pad.isResidue :=
  contains_of_entries (flagged_of_honest htexts hhonest hne hsize) (by simpa using hsize)
    (by rw [List.getElem?_map, htext, Option.map_some])

theorem isTorsion_of_honest (hne : p.responders ≠ []) (hsize : texts.length ≤ UInt64.size) :
    ∀ i text, texts[i]? = some text → p.flagged.contains i = false → text.pad.IsTorsion := by
  intro i text htext hi
  rw [contains_of_honest htexts hhonest hne hsize htext, Bool.not_eq_false'] at hi
  exact .of_isResidue hi

variable (hshares : ∀ t ∈ d.trustees,
    (s t.id).keyShare = Dealer.keyShare coefficients t.xCoordinate)
  (hformed : p.Formed d texts.length)
include hshares hformed

/-- The mask is what a single holder of the secret key computes. -/
theorem maskAt_of_honest (hbacking : d.Backing coefficients) (htext : texts[i]? = some text)
    (hpad : text.pad.IsTorsion) : p.maskAt i = text.pad ^ Dealer.secretKey coefficients := by
  have hparts : p.responders.map (fun r => (r.partialAt i).mi ^ p.weightOf r) =
      (p.responders.map fun r =>
        Dealer.keyShare coefficients r.trustee.xCoordinate * p.weightOf r).map (text.pad ^ ·) := by
    rw [List.map_map]
    apply List.map_congr_left
    intro r hr
    have htrustee : r.trustee ∈ d.trustees := hformed.trustees.subset (List.mem_map_of_mem hr)
    rw [partialAt_of_honest htexts hhonest hr htext, hshares _ htrustee]
    exact hpad.pow_pow _ _
  rw [Panel.maskAt, hparts, hpad.prod_pow]
  apply hpad.pow_congr
  have hsecret := hbacking.sum_weight_keyShare hformed.trustees (by simpa using hformed.quorum)
  rw [← hsecret, Exponent.residue_sum]
  simp only [List.map_map, Function.comp_def, Exponent.residue_mul, mul_comm, Panel.weightOf]

theorem accepted_of_honest (hne : p.responders ≠ []) (hsize : texts.length ≤ UInt64.size) :
    Accepted coefficients p d.context texts (p.responders.map fun r => (respondsTo c s r
      ((p.combine d.context texts).map fun x => x.challenge * p.weightOf r)).responses) := by
  intro rv hrv i text htext hi
  rw [zip_map_self] at hrv
  obtain ⟨r, hr, rfl⟩ := List.mem_map.1 hrv
  have hpad : text.pad.IsTorsion := isTorsion_of_honest htexts hhonest hne hsize i text htext hi
  have htrustee : r.trustee ∈ d.trustees := hformed.trustees.subset (List.mem_map_of_mem hr)
  rw [getD_respondsTo (getElem?_challenges d.context r htext),
    hformed.combineAt_eq (List.getElem?_eq_some_iff.1 htext).1,
    partialAt_of_honest htexts hhonest hr htext, ← hshares _ htrustee]
  exact accepts_respond _ _ _ hpad

end Panel

/-- The responses of the members that answered, each to its own challenges. -/
def responsesOf (c : String → Circumstances) (s : Household) (p : Panel)
    (combined : List Combined) : List (List Exponent) :=
  p.responders.map fun r =>
    (respondsTo c s r (combined.map fun x => x.challenge * p.weightOf r)).responses

theorem length_of_mem_responsesOf (context : ElectionContext) :
    ∀ vs ∈ responsesOf c s p (p.combine context texts), vs.length = texts.length := by
  simp [responsesOf, respondsTo]

/-- A session with a quorum that answers in time ends well, unless single responses are checked and
found bad. -/
theorem run_of_unblamed (hquorum : d.context.quorum.toNat ≤
      (d.trustees.filter fun t => (c t.id).answers (s t.id)).length)
    (hfresh : Fresh d c s) (htexts : texts ≠ []) (metrics : Metrics) :
    ∃ p : Panel, p.Formed d texts.length ∧ p.Honest d c s texts ∧
      ((d.config.checkIndividualResponses = true →
          individualProblems d.roster p texts (p.challenges (p.combine d.context texts))
            (responsesOf c s p (p.combine d.context texts)) = []) →
        ((run d (Household.transport c) metrics texts).run s).1.1 =
          .ok (publish p (p.combine d.context texts)
            (responsesOf c s p (p.combine d.context texts)))) := by
  obtain ⟨p, hassemble, hhonest⟩ := exists_honest htexts hquorum
  have hformed : p.Formed d texts.length := formed_of_assemble (length_mapM _ _ _) hassemble
  refine ⟨p, hformed, hhonest, fun hunblamed => ?_⟩
  rw [run_outcome d _ metrics texts s htexts, hassemble]
  exact conclude_eq_ok.2 ⟨_, collect_of_honest htexts hfresh hhonest hformed _
    (p.length_combine d.context texts), hunblamed, rfl⟩

section Quorum

variable (hbacking : d.Backing coefficients)
  (hshares : ∀ t ∈ d.trustees, (s t.id).keyShare = Dealer.keyShare coefficients t.xCoordinate)
  (hpos : 1 ≤ d.context.quorum.toNat)
  (hquorum : d.context.quorum.toNat ≤
    (d.trustees.filter fun t => (c t.id).answers (s t.id)).length)
  (hfresh : Fresh d c s) (hsize : texts.length ≤ UInt64.size) (htexts : texts ≠ [])
  (metrics : Metrics)
include hbacking hshares hpos hquorum hfresh hsize htexts

theorem run_of_quorum :
    ∃ p, ((run d (Household.transport c) metrics texts).run s).1.1 =
        .ok (publish p (p.combine d.context texts)
          (responsesOf c s p (p.combine d.context texts))) ∧
      p.Formed d texts.length ∧ p.Honest d c s texts ∧ p.responders ≠ [] := by
  obtain ⟨p, hformed, hhonest, hrun⟩ := run_of_unblamed hquorum hfresh htexts metrics
  have hne : p.responders ≠ [] := by
    intro hnil
    have := hformed.quorum
    rw [hnil, List.length_nil] at this
    omega
  refine ⟨p, hrun fun _ => ?_, hformed, hhonest, hne⟩
  exact (individualProblems_eq_nil hbacking hformed (length_of_mem_responsesOf _)).2
    (accepted_of_honest htexts hhonest hshares hformed hne hsize)

theorem exists_record :
    ∃ p responses, ((run d (Household.transport c) metrics texts).run s).1.1 =
        .ok (publish p (p.combine d.context texts) responses) ∧
      p.Formed d texts.length ∧ p.Honest d c s texts ∧ p.responders ≠ [] ∧
        responses.length = p.responders.length ∧
          (∀ vs ∈ responses, vs.length = texts.length) ∧
            Accepted coefficients p d.context texts responses := by
  obtain ⟨p, hrun, hformed, hhonest, hne⟩ :=
    run_of_quorum hbacking hshares hpos hquorum hfresh hsize htexts metrics
  exact ⟨p, _, hrun, hformed, hhonest, hne, List.length_map _, length_of_mem_responsesOf _,
    accepted_of_honest htexts hhonest hshares hformed hne hsize⟩

end Quorum

end Session

/-- The key holders behind the trustees are the dealt ones, at any later time. -/
def DealtElection.Staffs (e : DealtElection) (s : Household) (trustees : List TrusteeProfile) :
    Prop :=
  ∀ t ∈ trustees, ∃ u ∈ e.trustees, u.profile = t ∧ (s t.id).Continues u

section Dealt

open Session

variable {σ : Type} {draw : StateT σ Option Exponent} {manifest : String} {n quorum : UInt32}
  {ttl : ℕ} {source rest : σ} {e : DealtElection} {trustees : List TrusteeProfile}
  {config : DecryptionConfig} {d : Decryptor} {s : Household} {c : String → Circumstances}

theorem DealtElection.Staffs.run (hstaff : e.Staffs s trustees) (metrics : Metrics)
    (texts : List Cipher) :
    e.Staffs ((Session.run d (Household.transport c) metrics texts).run s).2 trustees := by
  intro t ht
  obtain ⟨u, hu, hprofile, hcontinues⟩ := hstaff t ht
  exact ⟨u, hu, hprofile, (continues_run d c metrics texts s t.id).trans hcontinues⟩

theorem backing_of_dealt
    (hdealt : (Dealer.generate draw manifest n quorum ttl).run source = some (.ok e, rest))
    (hnew : Decryptor.new e.context e.roster trustees config = .ok d)
    (hstaff : e.Staffs s trustees) :
    ∃ coefficients, d.Backing coefficients ∧ e.secretKey = Dealer.secretKey coefficients ∧
      (∀ t ∈ d.trustees, (s t.id).keyShare = Dealer.keyShare coefficients t.xCoordinate) ∧
        1 ≤ d.context.quorum.toNat := by
  obtain ⟨⟨coefficients, hwith⟩, -, -⟩ := Dealer.dealtWith_of_generate hdealt
  obtain ⟨m, hderive⟩ := hwith.derived
  have hpos := ElectionContext.quorum_of_derive hderive
  obtain ⟨hcontext, -, htrustees, -⟩ := Decryptor.new_eq_ok hnew
  have hbacking := Decryptor.backing_of_commits hderive hnew hwith.commits
  refine ⟨coefficients, hbacking, hwith.secret, ?_, ?_⟩
  · intro t ht
    obtain ⟨u, hu, rfl, hcontinues⟩ := hstaff t (htrustees ▸ ht)
    rw [hcontinues.keyShare, hwith.share u hu]
  · rwa [hcontext]

def DealtElection.household (e : DealtElection) : Household := fun name =>
  (e.trustees.find? (·.profile.id == name)).getD (.new ⟨name, 0, .one⟩ .zero 0)

theorem household_eq (hnames : (e.trustees.map (·.profile.id)).Nodup) {u : KeyHolder}
    (hu : u ∈ e.trustees) : e.household u.profile.id = u := by
  obtain ⟨v, hv⟩ : ∃ v, e.trustees.find? (·.profile.id == u.profile.id) = some v :=
    Option.isSome_iff_exists.1 (List.find?_isSome.2 ⟨u, hu, by simp⟩)
  have hid : v.profile.id = u.profile.id := by simpa using List.find?_some hv
  rw [DealtElection.household, hv, Option.getD_some]
  exact List.inj_on_of_nodup_map hnames (List.mem_of_find?_eq_some hv) hu hid

/-- A trustee answers in time. -/
def prompt : Circumstances := ⟨true, 2, 5, ⟨7⟩, [⟨1⟩]⟩

/-- The third guardian is late, the others answer in time. -/
def straggling (name : String) : Circumstances :=
  { prompt with punctual := name != Dealer.guardianId 3 }

/-- Without tickets there is a batch id left, so that only a late answer counts as none. -/
theorem Circumstances.answers_of_tickets {c : Circumstances} {holder : KeyHolder}
    (htickets : holder.tickets = { ttl }) {id : BatchId} (hid : id ∈ c.candidates)
    (hne : id ≠ .none) : c.answers holder = c.punctual := by
  have hfree : c.candidates.any (holder.tickets.sweep c.openedAt).isFree = true := by
    refine List.any_eq_true.2 ⟨id, hid, Tickets.isFree_iff.2 ⟨hne, ?_⟩⟩
    rw [htickets]
    rfl
  rw [answers, hfree, Bool.and_true]

theorem exists_decryptor
    (hdealt : (Dealer.generate draw manifest n quorum ttl).run source = some (.ok e, rest))
    {us : List KeyHolder} (hus : us ⊆ e.trustees) (hids : (us.map (·.profile.id)).Nodup)
    (hquorum : quorum.toNat ≤ us.length) (config : DecryptionConfig) :
    ∃ d, Decryptor.new e.context e.roster (us.map (·.profile)) config = .ok d ∧
      e.Staffs e.household (us.map (·.profile)) ∧
        ∀ t ∈ d.trustees, (e.household t.id).tickets = { ttl } := by
  obtain ⟨⟨coefficients, hwith⟩, hsize, hk, htickets⟩ := Dealer.dealtWith_of_generate hdealt
  have hnames : (e.trustees.map (·.profile.id)).Nodup := hwith.names ▸ Roster.nodup_ids
  obtain ⟨d, hnew⟩ := Decryptor.new_ok_of_dealt hwith (hsize ▸ n.toNat_lt) hus hids
    (by rwa [hk]) config
  obtain ⟨-, -, htrustees, -⟩ := Decryptor.new_eq_ok hnew
  refine ⟨d, hnew, ?_, ?_⟩
  · rw [DealtElection.Staffs, List.forall_mem_map]
    intro u hu
    exact ⟨u, hus hu, rfl, by rw [household_eq hnames (hus hu)]; exact ⟨rfl, rfl, rfl⟩⟩
  · rw [htrustees, List.forall_mem_map]
    intro u hu
    rw [household_eq hnames (hus hu), htickets u (hus hu)]

def countUp : StateT ℕ Option Exponent := fun n => some (⟨n + 1⟩, n + 1)

/-- The polynomials are `1 + 2x`, `3 + 4x` and `5 + 6x`. -/
theorem exists_election (manifest : String) :
    ∃ e, (Dealer.generate countUp manifest 3 2 60).run 0 = some (.ok e, 12) ∧
      e.secretKey = ⟨9⟩ ∧ e.trustees.map (·.profile.id) =
        [Dealer.guardianId 1, Dealer.guardianId 2, Dealer.guardianId 3] := by
  have hdraws : (Dealer.generate countUp manifest 3 2 60).run 0 =
      some (Dealer.deal manifest 2 60 [[⟨1⟩, ⟨2⟩], [⟨3⟩, ⟨4⟩], [⟨5⟩, ⟨6⟩]]
        [[⟨7⟩, ⟨8⟩], [⟨9⟩, ⟨10⟩], [⟨11⟩, ⟨12⟩]], 12) := rfl
  obtain ⟨e, he⟩ : ∃ e, Dealer.deal manifest 2 60 [[⟨1⟩, ⟨2⟩], [⟨3⟩, ⟨4⟩], [⟨5⟩, ⟨6⟩]]
      [[⟨7⟩, ⟨8⟩], [⟨9⟩, ⟨10⟩], [⟨11⟩, ⟨12⟩]] = .ok e :=
    Dealer.deal_ok manifest 60 rfl (by decide) (by decide) (by decide) (by decide) (by decide)
  obtain ⟨hguardians, -, htrustees, hsecret⟩ := Dealer.deal_eq_ok he
  refine ⟨e, hdraws.trans (by rw [he]), hsecret.trans (by decide), ?_⟩
  rw [htrustees, hguardians]
  rfl

/-- Two of three guardians answer. -/
theorem exists_committee (manifest : String) (config : DecryptionConfig) :
    ∃ e d, (Dealer.generate countUp manifest 3 2 60).run 0 = some (.ok e, 12) ∧
      e.secretKey = ⟨9⟩ ∧
      Decryptor.new e.context e.roster (e.trustees.map (·.profile)) config = .ok d ∧
        e.Staffs e.household (e.trustees.map (·.profile)) ∧
          (d.trustees.filter fun t => (straggling t.id).answers (e.household t.id)).map (·.id) =
              [Dealer.guardianId 1, Dealer.guardianId 2] ∧
            d.context.quorum.toNat ≤
                (d.trustees.filter fun t =>
                  (straggling t.id).answers (e.household t.id)).length ∧
              Fresh d straggling e.household := by
  obtain ⟨e, hdealt, hsecret, hids⟩ := exists_election manifest
  obtain ⟨⟨_, hwith⟩, -, hk, -⟩ := Dealer.dealtWith_of_generate hdealt
  have hlength : e.trustees.length = 3 := by
    rw [← List.length_map (·.profile.id), hids]
    rfl
  obtain ⟨d, hnew, hstaff, htickets⟩ := exists_decryptor hdealt (List.Subset.refl _)
    (hwith.names ▸ Roster.nodup_ids) (by rw [hlength]; decide) config
  obtain ⟨hcontext, -, htrustees, -⟩ := Decryptor.new_eq_ok hnew
  have hanswering : (d.trustees.filter fun t =>
      (straggling t.id).answers (e.household t.id)).map (·.id) =
        [Dealer.guardianId 1, Dealer.guardianId 2] := by
    have hpunctual : d.trustees.filter (fun t => (straggling t.id).answers (e.household t.id)) =
        d.trustees.filter ((· != Dealer.guardianId 3) ∘ (·.id)) :=
      List.filter_congr fun t ht => Circumstances.answers_of_tickets (htickets t ht)
        List.mem_cons_self (by decide)
    rw [hpunctual, ← List.filter_map, htrustees, List.map_map]
    change (e.trustees.map (·.profile.id)).filter _ = _
    rw [hids]
    simp [Dealer.guardianId_injective.eq_iff]
  refine ⟨e, d, hdealt, hsecret, hnew, hstaff, hanswering, ?_, ?_⟩
  · rw [← List.length_map (·.id), hanswering, hcontext, hk]
    decide
  · intro t ht _
    rw [htickets t ht]
    exact (by decide : 5 - 2 < 60)

/-- Whichever quorum of dealt key holders answers, each pad in the subgroup is raised to the power
of the secret key. Positions are counted in 64 bits, which bounds the batch. -/
theorem beta_eq_pow_secretKey
    (hdealt : (Dealer.generate draw manifest n quorum ttl).run source = some (.ok e, rest))
    (hnew : Decryptor.new e.context e.roster trustees config = .ok d)
    (hstaff : e.Staffs s trustees)
    (hquorum : d.context.quorum.toNat ≤
      (d.trustees.filter fun t => (c t.id).answers (s t.id)).length)
    (hfresh : Fresh d c s) (metrics : Metrics) (texts : List Cipher)
    (hsize : texts.length ≤ UInt64.size) :
    ∃ record : Decryptions, ((run d (Household.transport c) metrics texts).run s).1.1 = .ok record ∧
      ∀ (i : ℕ) (text : Cipher), texts[i]? = some text → text.pad.isResidue = true →
        ∃ item : Decryption, record.items[i]? = some (some item) ∧
          item.beta = text.pad ^ e.secretKey := by
  obtain ⟨coefficients, hbacking, hsecret, hshares, hpos⟩ := backing_of_dealt hdealt hnew hstaff
  by_cases htexts : texts = []
  · subst htexts
    exact ⟨{}, rfl, by simp⟩
  · obtain ⟨p, responses, hrun, hformed, hhonest, hne, -, hrows, -⟩ :=
      exists_record hbacking hshares hpos hquorum hfresh hsize htexts metrics
    refine ⟨_, hrun, ?_⟩
    intro i text htext hresidue
    have hflag : p.flagged.contains i = false := by
      rw [contains_of_honest htexts hhonest hne hsize htext, hresidue, Bool.not_true]
    refine ⟨decryptionAt p responses d.context text i, ?_, ?_⟩
    · rw [getElem?_items d.context hformed hrows, htext, Option.map_some, hflag]
      rfl
    · rw [hsecret]
      exact maskAt_of_honest htexts hhonest hshares hformed hbacking htext
        (.of_isResidue hresidue)

/-- The secret key is nine, and the third of three guardians is late. -/
theorem beta_eq_pow_secretKey_two_of_three :
    ∃ (e : DealtElection) (d : Decryptor) (record : Decryptions) (item : Decryption),
      e.secretKey = ⟨9⟩ ∧
        (d.trustees.filter fun t => (straggling t.id).answers (e.household t.id)).map (·.id) =
          [Dealer.guardianId 1, Dealer.guardianId 2] ∧
        ((run d (Household.transport straggling) {} [.elgamal ⟨.one, .one⟩,
          .elgamal ⟨genPow ⟨5⟩, .one⟩]).run e.household).1.1 = .ok record ∧
        record.items[1]? = some (some item) ∧ item.beta = genPow ⟨5⟩ ^ e.secretKey := by
  obtain ⟨e, d, hdealt, hsecret, hnew, hstaff, hids, hquorum, hfresh⟩ :=
    exists_committee "manifest" {}
  obtain ⟨record, hrun, hitems⟩ := beta_eq_pow_secretKey hdealt hnew hstaff hquorum hfresh {}
    [.elgamal ⟨.one, .one⟩, .elgamal ⟨genPow ⟨5⟩, .one⟩] (by decide)
  obtain ⟨item, hitem, hbeta⟩ := hitems 1 _ rfl (isResidue_genPow ⟨5⟩)
  exact ⟨e, d, record, item, hsecret, hids, hrun, hitem, hbeta⟩

/-- A session with an honest quorum leaves out exactly the pads outside the subgroup, against each
of which every member that answered has a reason, and its record verifies. -/
theorem honest_session_verifies
    (hdealt : (Dealer.generate draw manifest n quorum ttl).run source = some (.ok e, rest))
    (hnew : Decryptor.new e.context e.roster trustees config = .ok d)
    (hstaff : e.Staffs s trustees)
    (hquorum : d.context.quorum.toNat ≤
      (d.trustees.filter fun t => (c t.id).answers (s t.id)).length)
    (hfresh : Fresh d c s) (metrics : Metrics) (texts : List Cipher)
    (hsize : texts.length ≤ UInt64.size) :
    ∃ record : Decryptions, ((run d (Household.transport c) metrics texts).run s).1.1 = .ok record ∧
      record.items.length = texts.length ∧
      (∀ (i : ℕ) (text : Cipher), texts[i]? = some text →
        (record.items[i]? = some none ↔ text.pad.isResidue = false)) ∧
      record.flagged.entries = (invalidPads (texts.map Cipher.pad)).map
        (·, (d.trustees.filter fun t => (c t.id).answers (s t.id)).map flagReason) ∧
      record.verify texts e.context = true := by
  obtain ⟨coefficients, hbacking, -, hshares, hpos⟩ := backing_of_dealt hdealt hnew hstaff
  by_cases htexts : texts = []
  · subst htexts
    exact ⟨{}, rfl, rfl, by simp, rfl, rfl⟩
  · obtain ⟨p, responses, hrun, hformed, hhonest, hne, hcount, hrows, haccepted⟩ :=
      exists_record hbacking hshares hpos hquorum hfresh hsize htexts metrics
    have hpads := isTorsion_of_honest htexts hhonest hne hsize
    refine ⟨_, hrun, length_items, ?_, ?_, ?_⟩
    · intro i text htext
      rw [getElem?_items d.context hformed hrows, htext, Option.map_some,
        contains_of_honest htexts hhonest hne hsize htext]
      cases text.pad.isResidue <;> simp
    · rw [← hhonest.trustees, List.map_map]
      exact flagged_of_honest htexts hhonest hne hsize
    · rw [← (Decryptor.new_eq_ok hnew).1]
      refine verify_of_isTorsion hbacking hformed hcount haccepted hrows hpads ?_
      intro r hr i text htext hi
      rw [partialAt_of_honest htexts hhonest hr htext]
      exact (hpads i text htext hi).pow _

/-- A pad that is zero is left out, with a guardian late. -/
theorem honest_session_verifies_two_of_three :
    ∃ (e : DealtElection) (d : Decryptor) (record : Decryptions),
      e.secretKey = ⟨9⟩ ∧
        (d.trustees.filter fun t => (straggling t.id).answers (e.household t.id)).map (·.id) =
          [Dealer.guardianId 1, Dealer.guardianId 2] ∧
        ((run d (Household.transport straggling) {} [.elgamal ⟨⟨0⟩, .one⟩,
          .elgamal ⟨genPow ⟨5⟩, .one⟩]).run e.household).1.1 = .ok record ∧
        record.items[0]? = some none ∧ record.verify
          [.elgamal ⟨⟨0⟩, .one⟩, .elgamal ⟨genPow ⟨5⟩, .one⟩] e.context = true := by
  obtain ⟨e, d, hdealt, hsecret, hnew, hstaff, hids, hquorum, hfresh⟩ :=
    exists_committee "manifest" {}
  obtain ⟨record, hrun, -, hitems, -, hverify⟩ :=
    honest_session_verifies hdealt hnew hstaff hquorum hfresh {}
      [.elgamal ⟨⟨0⟩, .one⟩, .elgamal ⟨genPow ⟨5⟩, .one⟩] (by decide)
  exact ⟨e, d, record, hsecret, hids, hrun, (hitems 0 _ rfl).2 rfl, hverify⟩

end Dealt

end ThresholdElGamal
