import ThresholdElGamal.Proofs.Decryption.Interleaving

/-! # Sessions do not see each other

Whatever the other sessions do meanwhile, what a session gets from its key holders is what it would
get from them alone, but for the ids of its batches, and these do not show in a record.
-/

namespace ThresholdElGamal

namespace Session

variable {d : Decryptor} {c : String → Circumstances} {s s' : Household} {texts : List Cipher}
  {p p' : Panel}

theorem respondsTo_of_continues {r : Responder} {challenges : List Exponent}
    (h : (s' r.trustee.id).Continues (s r.trustee.id)) :
    respondsTo c s' r challenges = respondsTo c s r challenges :=
  congrArg (ChallengeResponses.mk r.answer.batchId) (h.responses_eq _ _)

section Congruence

/-! A record depends on who answers and on the contributions, not on the batches in which they
came. -/

theorem combine_congr
    (hpartials : p.responders.map (·.answer.partials) = p'.responders.map (·.answer.partials))
    (hweights : p.weights = p'.weights) (context : ElectionContext) (texts : List Cipher) :
    p.combine context texts = p'.combine context texts := by
  have hcolumn (q : Panel) (i : ℕ) :
      q.column i = (q.responders.map (·.answer.partials)).filterMap (·[i]?) := by
    rw [List.filterMap_map]
    rfl
  simp only [Panel.combine, Panel.combineAt, hcolumn, hpartials, hweights]

theorem publish_congr (htrustees : p.responders.map (·.trustee) = p'.responders.map (·.trustee))
    (hflagged : p.flagged = p'.flagged) (combined : List Combined)
    (responses : List (List Exponent)) :
    publish p combined responses = publish p' combined responses := by
  have hids := congrArg (List.map TrusteeProfile.id) htrustees
  simp only [List.map_map] at hids
  simp only [publish, item, hflagged]
  exact congrArg _ hids

theorem responsesOf_eq (combined : List Combined) : responsesOf c s p combined =
    (p.responders.map (·.trustee)).map fun t => (s t.id).responses (c t.id).seed
      (combined.map fun x => x.challenge *
        lagrangeWeight t.xCoordinate ((p.responders.map (·.trustee)).map (·.xCoordinate))) := by
  rw [List.map_map, List.map_map]
  rfl

theorem Panel.Honest.partials_eq (htexts : texts ≠ []) (hhonest : p.Honest d c s texts) :
    p.responders.map (·.answer.partials) = (p.responders.map (·.trustee)).map fun t =>
      (s t.id).partials (c t.id).seed (texts.map Cipher.pad) := by
  rw [List.map_map]
  apply List.map_congr_left
  intro r hr
  obtain ⟨u, hdecrypt, -⟩ := hhonest.decrypted r hr
  exact (KeyHolder.decrypt_eq_some (pads_ne_nil htexts) hdecrypt).1

end Congruence

section Quorum

variable {coefficients : List (List Exponent)} (hbacking : d.Backing coefficients)
  (hshares : ∀ t ∈ d.trustees, (s t.id).keyShare = Dealer.keyShare coefficients t.xCoordinate)
  (hpos : 1 ≤ d.context.quorum.toNat)
  (hquorum : d.context.quorum.toNat ≤
    (d.trustees.filter fun t => (c t.id).answers (s t.id)).length)
  (hfresh : Fresh d c s) (hsize : texts.length ≤ UInt64.size) (htexts : texts ≠ [])
include hbacking hshares hpos hquorum hfresh hsize htexts

theorem exists_decrypted (metrics : Metrics) :
    ∃ record : Decryptions, ((run d (Household.transport c) metrics texts).run s).1.1 = .ok record ∧
      (∀ (i : ℕ) (text : Cipher), texts[i]? = some text → text.pad.isResidue = true →
        ∃ item : Decryption, record.items[i]? = some (some item) ∧
          item.beta = text.pad ^ Dealer.secretKey coefficients) ∧
      record.verify texts d.context = true := by
  obtain ⟨p, responses, hrun, hformed, hhonest, hne, hcount, hrows, haccepted⟩ :=
    exists_record hbacking hshares hpos hquorum hfresh hsize htexts metrics
  have hpads := isTorsion_of_honest htexts hhonest hne hsize
  refine ⟨_, hrun, ?_, ?_⟩
  · intro i text htext hresidue
    refine ⟨decryptionAt p responses d.context text i, ?_,
      maskAt_of_honest htexts hhonest hshares hformed hbacking htext (.of_isResidue hresidue)⟩
    rw [getElem?_items d.context hformed hrows, htext, Option.map_some,
      contains_of_honest htexts hhonest hne hsize htext, hresidue]
    rfl
  · refine verify_of_isTorsion hbacking hformed hcount haccepted hrows hpads ?_
    intro r hr i text htext hi
    rw [partialAt_of_honest htexts hhonest hr htext]
    exact (hpads i text htext hi).pow _

/-- A session ends alike whatever other tickets its key holders hold. -/
theorem run_of_continues (hcontinues : ∀ name, (s' name).Continues (s name))
    (hanswers : ∀ t ∈ d.trustees, (c t.id).answers (s' t.id) = (c t.id).answers (s t.id))
    (metrics : Metrics) :
    ((run d (Household.transport c) metrics texts).run s').1.1 =
      ((run d (Household.transport c) metrics texts).run s).1.1 := by
  have hfilter : d.trustees.filter (fun t => (c t.id).answers (s' t.id)) =
      d.trustees.filter fun t => (c t.id).answers (s t.id) := List.filter_congr hanswers
  have hshares' (t : TrusteeProfile) (ht : t ∈ d.trustees) :
      (s' t.id).keyShare = Dealer.keyShare coefficients t.xCoordinate := by
    rw [(hcontinues t.id).keyShare, hshares t ht]
  have hfresh' : Fresh d c s' := by
    intro t ht hanswer
    rw [(hcontinues t.id).ttl]
    exact hfresh t ht ((hanswers t ht).symm.trans hanswer)
  obtain ⟨p, hrun, hformed, hhonest, hne⟩ :=
    run_of_quorum hbacking hshares hpos hquorum hfresh hsize htexts metrics
  obtain ⟨p', hrun', hformed', hhonest', hne'⟩ :=
    run_of_quorum hbacking hshares' hpos (hfilter.symm ▸ hquorum) hfresh' hsize htexts metrics
  have htrustees : p'.responders.map (·.trustee) = p.responders.map (·.trustee) := by
    rw [hhonest'.trustees, hhonest.trustees, hfilter]
  have hpartials : p'.responders.map (·.answer.partials) =
      p.responders.map (·.answer.partials) := by
    rw [hhonest'.partials_eq htexts, hhonest.partials_eq htexts, htrustees]
    simp only [(hcontinues _).partials_eq]
  have hweights : p'.weights = p.weights := by rw [hformed'.weights, hformed.weights, htrustees]
  have hflagged : p'.flagged = p.flagged := by
    have hreasons := congrArg (List.map flagReason) htrustees
    rw [List.map_map, List.map_map] at hreasons
    apply Flags.ext
    rw [flagged_of_honest htexts hhonest' hne' hsize, flagged_of_honest htexts hhonest hne hsize]
    exact congrArg (fun reasons => (invalidPads (texts.map Cipher.pad)).map (·, reasons)) hreasons
  have hresponses : responsesOf c s' p' (p.combine d.context texts) =
      responsesOf c s p (p.combine d.context texts) := by
    rw [responsesOf_eq, responsesOf_eq, htrustees]
    simp only [(hcontinues _).responses_eq]
  rw [hrun, hrun', combine_congr hpartials hweights, hresponses, publish_congr htrustees hflagged]

end Quorum

end Session

open Session

namespace Plan

variable {ι : Type} {plan : Plan ι} {s : Household} {h h' : State ι} {k : ι}

/-- Where the replies that the sessions have got come from. -/
structure Records (plan : Plan ι) (s : Household) (h : State ι) : Prop where
  order : ∀ k name, h.openings (k, name) = none → h.closings (k, name) = none
  /-- A reply of round one is that of a trustee at some time, which also answers at the start. -/
  opened : ∀ k name reply, h.openings (k, name) = some reply →
    plan.texts k ≠ [] ∧ name ∈ (plan.decryptor k).trustees.map (·.id) ∧
      (plan.circumstances k name).answers (s name) = true ∧
        ∃ holder : KeyHolder, holder.Continues (s name) ∧
          (plan.circumstances k name).answers holder = true ∧
            reply = ((plan.circumstances k name).opening holder (plan.pads k)).1
  /-- A reply of round two answers the challenges to a responder, which came in time. -/
  closed : ∀ k name reply, h.closings (k, name) = some reply →
    ∃ p r, plan.panel? h k = some (.ok p) ∧ r ∈ p.responders ∧ r.trustee.id = name ∧
      (plan.circumstances k name).challengedAt - (plan.circumstances k name).openedAt <
          (s name).tickets.ttl ∧
        reply = .answered (respondsTo (plan.circumstances k) s r
          ((plan.combined k p).map fun x => x.challenge * p.weightOf r))

namespace Records

theorem start (plan : Plan ι) (s : Household) : plan.Records s (start s) where
  order _ _ _ := rfl
  opened _ _ _ h := by cases h
  closed _ _ _ h := by cases h

variable [DecidableEq ι] (hbooks : plan.Books s h) (hrecords : plan.Records s h)
include hbooks hrecords

theorem opening {t : TrusteeProfile} (htexts : plan.texts k ≠ [])
    (ht : t ∈ (plan.decryptor k).trustees) (hnew : h.openings (k, t.id) = none)
    (hanswers : (plan.circumstances k t.id).answers (h.household t.id) = true)
    (hfresh : (h.household t.id).tickets.Unexpired (plan.circumstances k t.id).openedAt) :
    plan.Records s (plan.opened h k t.id) := by
  refine ⟨?_, ?_, ?_⟩
  · intro k' name hnone
    apply hrecords.order
    by_contra hsome
    obtain ⟨reply, hreply⟩ := Option.ne_none_iff_exists'.1 hsome
    rw [openings_opened hnew hreply] at hnone
    cases hnone
  · intro k' name reply hreply
    by_cases heq : (k', name) = (k, t.id)
    · cases heq
      rw [openings_opened_self, Option.some_inj] at hreply
      exact ⟨htexts, List.mem_map_of_mem ht,
        Circumstances.answers_of_subset hanswers hfresh (hbooks t.id).sublist.subset,
        h.household t.id, (hbooks t.id).continues, hanswers, hreply.symm⟩
    · rw [openings_opened_of_ne heq] at hreply
      exact hrecords.opened k' name reply hreply
  · intro k' name reply hreply
    obtain ⟨p, r, hpanel, hr⟩ := hrecords.closed k' name reply hreply
    exact ⟨p, r, panel?_opened hnew hpanel, hr⟩

theorem closing {p : Panel} {r : Responder} (hpanel : plan.panel? h k = some (.ok p))
    (hr : r ∈ p.responders) (hnew : h.closings (k, r.trustee.id) = none)
    (hfresh : (h.household r.trustee.id).tickets.Unexpired
      (plan.circumstances k r.trustee.id).challengedAt) :
    plan.Books s (plan.closed h k r.trustee.id r.answer.batchId
        ((plan.combined k p).map fun x => x.challenge * p.weightOf r)) ∧
      plan.Records s (plan.closed h k r.trustee.id r.answer.batchId
        ((plan.combined k p).map fun x => x.challenge * p.weightOf r)) := by
  have hout : h.Outstanding r.trustee.id k r.answer := ⟨openings_of_panel? hpanel hr, hnew⟩
  obtain ⟨hbooks', hreply⟩ := hbooks.closing hout hfresh
    (show ((plan.combined k p).map fun x => x.challenge * p.weightOf r).length = _ by
      simp [combined])
  refine ⟨hbooks', ?_, hrecords.opened, ?_⟩
  · intro k' name hnone
    have hne : (k', name) ≠ (k, r.trustee.id) := by
      intro heq
      cases heq
      cases hout.1.symm.trans hnone
    rw [closings_closed_of_ne hne]
    exact hrecords.order k' name hnone
  · intro k' name reply hreply'
    by_cases heq : (k', name) = (k, r.trustee.id)
    · cases heq
      rw [hreply, Option.some_inj] at hreply'
      have hticket := hfresh _ (Tickets.mem_of_get? ((hbooks _).held _ _ hout))
      rw [(hbooks _).continues.ttl] at hticket
      exact ⟨p, r, hpanel, hr, rfl, hticket, hreply'.symm⟩
    · rw [closings_closed_of_ne heq] at hreply'
      exact hrecords.closed k' name reply hreply'

end Records

section Step

variable [DecidableEq ι]

theorem Step.preserves (hstep : Step plan h h') (hbooks : plan.Books s h)
    (hrecords : plan.Records s h) : plan.Books s h' ∧ plan.Records s h' := by
  cases hstep with
  | opening htexts ht hnew hanswers hfresh =>
    exact ⟨hbooks.opening htexts hnew (hrecords.order _ _ hnew) hanswers hfresh,
      hrecords.opening hbooks htexts ht hnew hanswers hfresh⟩
  | closing hpanel hask hnew hfresh =>
    rw [zip_challenges (formed_of_panel? hpanel)] at hask
    obtain ⟨r, hr, heq⟩ := List.mem_map.1 hask
    cases heq
    exact hrecords.closing hbooks hpanel hr hnew hfresh

theorem books_and_records (hreach : Relation.ReflTransGen (Step plan) (start s) h) :
    plan.Books s h ∧ plan.Records s h := by
  induction hreach with
  | refl => exact ⟨Books.start plan s, Records.start plan s⟩
  | tail _ hstep ih => exact hstep.preserves ih.1 ih.2

end Step

section Outcome

variable (hrecords : plan.Records s h) {s' : Household}
include hrecords

/-- The key holders as the session found them in round one. -/
theorem Records.exists_snapshot (k : ι) : ∃ s' : Household, (∀ name, (s' name).Continues (s name)) ∧
    ∀ name reply, h.openings (k, name) = some reply →
      (plan.circumstances k name).answers (s' name) = true ∧
        reply = ((plan.circumstances k name).opening (s' name) (plan.pads k)).1 := by
  have hholder (name : String) : ∃ holder : KeyHolder, holder.Continues (s name) ∧
      ∀ reply, h.openings (k, name) = some reply →
        (plan.circumstances k name).answers holder = true ∧
          reply = ((plan.circumstances k name).opening holder (plan.pads k)).1 := by
    cases hreply : h.openings (k, name) with
    | none => exact ⟨s name, .refl _, by simp⟩
    | some reply =>
      obtain ⟨-, -, -, holder, hcontinues, hanswers, heq⟩ := hrecords.opened k name reply hreply
      refine ⟨holder, hcontinues, ?_⟩
      rintro _ ⟨⟩
      exact ⟨hanswers, heq⟩
  choose s' hcontinues hreplies using hholder
  exact ⟨s', hcontinues, hreplies⟩

theorem Records.exists_panel (htexts : plan.texts k ≠ [])
    (hall : ∀ t ∈ (plan.decryptor k).trustees, (h.openings (k, t.id)).isSome = true) :
    ∃ s' p, (∀ name, (s' name).Continues (s name)) ∧
      (∀ t ∈ (plan.decryptor k).trustees, (plan.circumstances k t.id).answers (s' t.id) = true) ∧
      plan.panel? h k = some (.ok p) ∧
        assemble (plan.decryptor k) (plan.texts k).length
          ((askOpening (plan.decryptor k) (Household.transport (plan.circumstances k))
            (plan.texts k)).run s').1 = .ok p ∧
          p.Honest (plan.decryptor k) (plan.circumstances k) s' (plan.texts k) ∧
            p.responders.map (·.trustee) = (plan.decryptor k).trustees := by
  obtain ⟨s', hcontinues, hopenings⟩ := hrecords.exists_snapshot k
  have hreply (t : TrusteeProfile) (ht : t ∈ (plan.decryptor k).trustees) :
      (plan.circumstances k t.id).answers (s' t.id) = true ∧
        (h.openings (k, t.id)).getD .silent =
          ((plan.circumstances k t.id).opening (s' t.id) (plan.pads k)).1 := by
    obtain ⟨reply, hreply⟩ := Option.isSome_iff_exists.1 (hall t ht)
    rw [hreply, Option.getD_some]
    exact hopenings t.id reply hreply
  have hfilter := List.filter_eq_self.2 fun t ht => (hreply t ht).1
  obtain ⟨p, hassemble, hhonest⟩ :=
    exists_honest htexts (hfilter.symm ▸ (plan.decryptor k).problems_eq_nil.2.1)
  refine ⟨s', p, hcontinues, fun t ht => (hreply t ht).1, ?_, hassemble, hhonest,
    hhonest.trustees.trans hfilter⟩
  refine (plan.panel?_eq_some h k).2 ⟨hall, Eq.trans (congrArg _ ?_) hassemble⟩
  obtain ⟨houtputs, -⟩ := Household.mapM_call TrusteeProfile.id
    (fun t holder => (plan.circumstances k t.id).opening holder (plan.pads k))
      (plan.decryptor k).nodup_ids s'
  exact (List.map_congr_left fun t ht => (hreply t ht).2).trans houtputs.symm

theorem Records.closing_eq {p : Panel} {r : Responder}
    (hpanel : plan.panel? h k = some (.ok p)) (hr : r ∈ p.responders)
    {reply : Reply ChallengeResponses}
    (hreply : h.closings (k, r.trustee.id) = some reply) :
    (plan.circumstances k r.trustee.id).challengedAt -
        (plan.circumstances k r.trustee.id).openedAt < (s r.trustee.id).tickets.ttl ∧
      reply = .answered (respondsTo (plan.circumstances k) s r
        ((plan.combined k p).map fun x => x.challenge * p.weightOf r)) := by
  obtain ⟨p', r', hpanel', hr', hid, hfresh, heq⟩ := hrecords.closed k _ reply hreply
  rw [hpanel, Option.some_inj, Except.ok.injEq] at hpanel'
  subst hpanel'
  have hnodup := (plan.decryptor k).nodup_ids.sublist ((formed_of_panel? hpanel).trustees.map _)
  rw [List.map_map] at hnodup
  obtain rfl := List.inj_on_of_nodup_map hnodup hr' hr hid
  exact ⟨hfresh, heq⟩

theorem Records.closings_eq {p : Panel} (hpanel : plan.panel? h k = some (.ok p))
    {replies : List (Reply ChallengeResponses)}
    (hreplies : (p.responders.mapM fun r => h.closings (k, r.trustee.id)) = some replies) :
    (∀ r ∈ p.responders, (plan.circumstances k r.trustee.id).challengedAt -
        (plan.circumstances k r.trustee.id).openedAt < (s r.trustee.id).tickets.ttl) ∧
      replies = p.responders.map fun r => .answered (respondsTo (plan.circumstances k) s r
        ((plan.combined k p).map fun x => x.challenge * p.weightOf r)) := by
  have hclosed (r : Responder) (hr : r ∈ p.responders) := hrecords.closing_eq hpanel hr
    (Option.some_get (isSome_of_mapM hreplies r hr)).symm
  refine ⟨fun r hr => (hclosed r hr).1, ?_⟩
  rw [← Option.some_inj, ← hreplies]
  apply mapM_eq_some
  intro r hr
  rw [← Option.some_get (isSome_of_mapM hreplies r hr), (hclosed r hr).2]

theorem Records.answers_of_opened {t : TrusteeProfile}
    (hopening : (h.openings (k, t.id)).isSome = true) :
    (plan.circumstances k t.id).answers (s t.id) = true := by
  obtain ⟨reply, hreply⟩ := Option.isSome_iff_exists.1 hopening
  exact (hrecords.opened k t.id reply hreply).2.2.1

theorem Records.exists_answer {name : String} (hopening : (h.openings (k, name)).isSome = true) :
    ∃ answer, h.openings (k, name) = some (.answered answer) := by
  obtain ⟨reply, hreply⟩ := Option.isSome_iff_exists.1 hopening
  obtain ⟨htexts, -, -, holder, -, hanswers, rfl⟩ := hrecords.opened k name reply hreply
  obtain ⟨answer, u, -, hopened⟩ :=
    Circumstances.opening_of_answers (pads_ne_nil htexts) hanswers
  exact ⟨answer, by rw [hreply, pads, hopened]⟩

omit hrecords in
theorem outcome?_eq_some (htexts : plan.texts k ≠ [])
    {outcome : Except (List Problem) Decryptions} {p : Panel}
    (hpanel : plan.panel? h k = some (.ok p)) : plan.outcome? h k = some outcome ↔
      ∃ replies, (p.responders.mapM fun r => h.closings (k, r.trustee.id)) = some replies ∧
        conclude (plan.decryptor k) p (plan.texts k) (plan.combined k p) replies = outcome := by
  rw [outcome?, List.isEmpty_eq_false_iff.2 htexts, if_neg Bool.false_ne_true, hpanel,
    Option.bind_some, Option.map_eq_some_iff]

omit hrecords in
theorem openings_of_outcome? (htexts : plan.texts k ≠ [])
    {outcome : Except (List Problem) Decryptions} (houtcome : plan.outcome? h k = some outcome) :
    ∀ t ∈ (plan.decryptor k).trustees, (h.openings (k, t.id)).isSome = true := by
  rw [outcome?, List.isEmpty_eq_false_iff.2 htexts, if_neg Bool.false_ne_true,
    Option.bind_eq_some_iff] at houtcome
  obtain ⟨x, hpanel, -⟩ := houtcome
  exact ((plan.panel?_eq_some h k).1 hpanel).1

/-- A session that shares its trustees ends as one that has these trustees alone, at a time when
they may hold other tickets. -/
theorem Records.run_of_outcome? (htexts : plan.texts k ≠ [])
    {outcome : Except (List Problem) Decryptions} (houtcome : plan.outcome? h k = some outcome) :
    (∀ t ∈ (plan.decryptor k).trustees, (plan.circumstances k t.id).answers (s t.id) = true) ∧
      Fresh (plan.decryptor k) (plan.circumstances k) s ∧
      ∃ s' : Household, (∀ name, (s' name).Continues (s name)) ∧
        (∀ t ∈ (plan.decryptor k).trustees,
          (plan.circumstances k t.id).answers (s' t.id) = true) ∧
        ∀ metrics, ((run (plan.decryptor k) (Household.transport (plan.circumstances k)) metrics
          (plan.texts k)).run s').1.1 = outcome := by
  have hall := openings_of_outcome? htexts houtcome
  obtain ⟨s', p, hcontinues, hanswers, hpanel, hassemble, hhonest, htrustees⟩ :=
    hrecords.exists_panel htexts hall
  obtain ⟨replies, hreplies, rfl⟩ := (outcome?_eq_some htexts hpanel).1 houtcome
  obtain ⟨htimes, rfl⟩ := hrecords.closings_eq hpanel hreplies
  have hfresh : Fresh (plan.decryptor k) (plan.circumstances k) s := by
    intro t ht _
    rw [← htrustees] at ht
    obtain ⟨r, hr, rfl⟩ := List.mem_map.1 ht
    exact htimes r hr
  have hfresh' : Fresh (plan.decryptor k) (plan.circumstances k) s' := by
    intro t ht _
    rw [(hcontinues t.id).ttl]
    exact hfresh t ht (hrecords.answers_of_opened (hall t ht))
  refine ⟨fun t ht => hrecords.answers_of_opened (hall t ht), hfresh, s', hcontinues, hanswers, ?_⟩
  intro metrics
  rw [run_outcome _ _ metrics _ s' htexts, hassemble]
  simp only [askClosing_of_honest htexts hfresh' hhonest (formed_of_panel? hpanel) _
    (Panel.length_combine _ _ _), respondsTo_of_continues (hcontinues _)]
  rfl

/-- With shares of the committed secret, a session that shares its trustees ends as it does alone,
with the powers of the secret and a record that verifies. -/
theorem Records.decrypted_of_outcome? (htexts : plan.texts k ≠ [])
    {coefficients : List (List Exponent)} (hbacking : (plan.decryptor k).Backing coefficients)
    (hshares : ∀ t ∈ (plan.decryptor k).trustees,
      (s t.id).keyShare = Dealer.keyShare coefficients t.xCoordinate)
    (hpos : 1 ≤ (plan.decryptor k).context.quorum.toNat)
    (hsize : (plan.texts k).length ≤ UInt64.size) {outcome : Except (List Problem) Decryptions}
    (houtcome : plan.outcome? h k = some outcome) :
    (∀ metrics, ((run (plan.decryptor k) (Household.transport (plan.circumstances k)) metrics
      (plan.texts k)).run s).1.1 = outcome) ∧
    ∃ record : Decryptions, outcome = .ok record ∧
      (∀ (i : ℕ) (text : Cipher), (plan.texts k)[i]? = some text → text.pad.isResidue = true →
        ∃ item : Decryption, record.items[i]? = some (some item) ∧
          item.beta = text.pad ^ Dealer.secretKey coefficients) ∧
      record.verify (plan.texts k) (plan.decryptor k).context = true := by
  obtain ⟨hanswers, hfresh, s', hcontinues, hanswers', hrun⟩ :=
    hrecords.run_of_outcome? htexts houtcome
  have hquorum : (plan.decryptor k).context.quorum.toNat ≤ ((plan.decryptor k).trustees.filter
      fun t => (plan.circumstances k t.id).answers (s t.id)).length := by
    rw [List.filter_eq_self.2 hanswers]
    exact (plan.decryptor k).problems_eq_nil.2.1
  have hsame (metrics : Metrics) := run_of_continues hbacking hshares hpos hquorum hfresh
    hsize htexts hcontinues (fun t ht => by rw [hanswers t ht, hanswers' t ht]) metrics
  obtain ⟨record, hrecord, hdecrypted⟩ :=
    exists_decrypted hbacking hshares hpos hquorum hfresh hsize htexts {}
  refine ⟨fun metrics => by rw [← hsame, hrun], record, ?_, hdecrypted⟩
  rw [← hrun {}, hsame, hrecord]

theorem Records.exists_closing [DecidableEq ι] (htexts : plan.texts k ≠ [])
    (hall : ∀ t ∈ (plan.decryptor k).trustees, (h.openings (k, t.id)).isSome = true)
    {t : TrusteeProfile} (ht : t ∈ (plan.decryptor k).trustees)
    (hnew : h.closings (k, t.id) = none)
    (hfresh : (h.household t.id).tickets.Unexpired (plan.circumstances k t.id).challengedAt) :
    ∃ batchId challenges, Step plan h (plan.closed h k t.id batchId challenges) := by
  obtain ⟨s', p, -, -, hpanel, -, -, htrustees⟩ := hrecords.exists_panel htexts hall
  rw [← htrustees] at ht
  obtain ⟨r, hr, rfl⟩ := List.mem_map.1 ht
  have hask : (r, (plan.combined k p).map fun x => x.challenge * p.weightOf r) ∈
      p.responders.zip (p.challenges (plan.combined k p)) := by
    rw [zip_challenges (formed_of_panel? hpanel)]
    exact List.mem_map_of_mem hr
  exact ⟨_, _, .closing hpanel hask hnew hfresh⟩

/-- A session ends when all its calls are made, and not before. -/
theorem Records.isSome_outcome?_iff : (plan.outcome? h k).isSome = true ↔ plan.Complete h k := by
  by_cases htexts : plan.texts k = []
  · simp [outcome?, Complete, htexts]
  · constructor
    · intro hsome
      obtain ⟨outcome, houtcome⟩ := Option.isSome_iff_exists.1 hsome
      have hall := openings_of_outcome? htexts houtcome
      obtain ⟨s', p, -, -, hpanel, -, -, htrustees⟩ := hrecords.exists_panel htexts hall
      obtain ⟨replies, hreplies, -⟩ := (outcome?_eq_some htexts hpanel).1 houtcome
      refine Or.inr fun t ht => ⟨hall t ht, ?_⟩
      rw [← htrustees] at ht
      obtain ⟨r, hr, rfl⟩ := List.mem_map.1 ht
      exact isSome_of_mapM hreplies r hr
    · rintro (hempty | hall)
      · exact absurd hempty htexts
      · obtain ⟨s', p, -, -, hpanel, -, -, htrustees⟩ :=
          hrecords.exists_panel htexts fun t ht => (hall t ht).1
        rw [← htrustees, List.forall_mem_map] at hall
        apply Option.isSome_of_mem
        refine (outcome?_eq_some htexts hpanel).2 ⟨_, mapM_eq_some (k := fun r =>
          (h.closings (k, r.trustee.id)).getD .silent) ?_, rfl⟩
        intro r hr
        obtain ⟨reply, hreply⟩ := Option.isSome_iff_exists.1 (hall r hr).2
        rw [hreply, Option.getD_some]

theorem Records.not_outstanding (hcomplete : plan.Complete h k) (name : String)
    (answer : PartialDecryptions) : ¬ h.Outstanding name k answer := by
  rintro ⟨hopening, hclosing⟩
  obtain ⟨htexts, hname, -⟩ := hrecords.opened k name _ hopening
  obtain ⟨t, ht, rfl⟩ := List.mem_map.1 hname
  have hsome := (hcomplete.resolve_left htexts t ht).2
  rw [hclosing] at hsome
  cases hsome

end Outcome

end Plan

end ThresholdElGamal
