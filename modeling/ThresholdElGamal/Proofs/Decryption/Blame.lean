import ThresholdElGamal.Proofs.Decryption.HonestSessions

/-! # Who is blamed

The checks of single responses name exactly the responders and positions at which the responses do
not fit the commitments. A key holder that follows the protocol gives well-formed answers, and its
responses fit for every challenge and every weight, so no problem of a session names it, whatever
the other trustees answer.
-/

namespace ThresholdElGamal

open Session

namespace Circumstances

variable {c : Circumstances} {before between after holder u : KeyHolder}

/-- What happens to a key holder between two calls of a session leaves it its share, and the
ticket that the session holds. -/
structure Keeps (c : Circumstances) (before after : KeyHolder) : Prop where
  continues : after.Continues before
  ticket : ∀ id size, before.tickets.live c.challengedAt id = some ⟨c.seed, size, c.openedAt⟩ →
    after.tickets.live c.challengedAt id = some ⟨c.seed, size, c.openedAt⟩

theorem Keeps.refl (holder : KeyHolder) : c.Keeps holder holder := ⟨.refl _, fun _ _ h => h⟩

theorem Keeps.trans (h : c.Keeps before between) (h' : c.Keeps between after) :
    c.Keeps before after :=
  ⟨h'.continues.trans h.continues, fun id size hlive => h'.ticket id size (h.ticket id size hlive)⟩

theorem decrypt_of_opening {pads : List Element} {answer : PartialDecryptions}
    (h : (c.opening holder pads).1 = .answered answer) :
    holder.decrypt c.openedAt c.candidates c.seed pads =
      some (answer, (c.opening holder pads).2) := by
  unfold opening at h ⊢
  split at h
  · next a u hdecrypt =>
    simp only [hdecrypt]
    split at h
    · cases h
      rfl
    · cases h
  · cases h

theorem closing_of_live {id : BatchId} {challenges : List Exponent} {ticket : Ticket}
    (h : holder.tickets.live c.challengedAt id = some ticket)
    (hsize : ticket.size = challenges.length) :
    (c.closing holder id challenges).1 =
      .answered ⟨id, holder.responses ticket.seed challenges⟩ := by
  have hanswer := KeyHolder.challenge_of_live h hsize
  simp only [closing, hanswer]

end Circumstances

namespace Session

variable {σ : Type}

/-- Behind a trustee stands a key holder that follows the protocol. The calls to other trustees
may do anything else, also to this key holder. -/
structure Transport.Seats (transport : Transport (StateM σ)) (view : σ → KeyHolder)
    (t : TrusteeProfile) (c : Circumstances) : Prop where
  opening : ∀ pads s, ((transport.decrypt t pads).run s).1 = (c.opening (view s) pads).1 ∧
    view ((transport.decrypt t pads).run s).2 = (c.opening (view s) pads).2
  closing : ∀ id cs s, ((transport.challenge t id cs).run s).1 = (c.closing (view s) id cs).1
  decrypt_other : ∀ u : TrusteeProfile, u.id ≠ t.id → ∀ pads s,
    c.Keeps (view s) (view ((transport.decrypt u pads).run s).2)
  challenge_other : ∀ u : TrusteeProfile, u.id ≠ t.id → ∀ id cs s,
    c.Keeps (view s) (view ((transport.challenge u id cs).run s).2)

/-- The response for a ciphertext recomputes the announced commitments, under the share key that
the roster determines for the responder and the challenge that was sent to it. -/
def Panel.FitsAt (d : Decryptor) (p : Panel) (r : Responder) (responses : List Exponent) (i : ℕ)
    (text : Cipher) : Prop :=
  ∃ key, d.roster.shareKey? r.trustee.id = some key ∧
    (ChaumPedersenProof.mk ((p.combineAt d.context text i).challenge * p.weightOf r)
      (responses.getD i .zero)).commitments key text.pad (r.partialAt i).mi =
        ((r.partialAt i).a, (r.partialAt i).b)

variable {d : Decryptor} {p : Panel} {texts : List Cipher} {responses : List (List Exponent)}

/-- The single checks name the pairs of responder and position that do not fit, and no others. -/
theorem mem_individualProblems (h : p.Formed d texts.length)
    (hresponses : ∀ vs ∈ responses, vs.length = texts.length) {problem : Problem} :
    problem ∈ individualProblems d.roster p texts (p.challenges (p.combine d.context texts))
        responses ↔
      ∃ rv ∈ p.responders.zip responses, ∃ i text, texts[i]? = some text ∧
        p.flagged.contains i = false ∧ ¬ p.FitsAt d rv.1 rv.2 i text ∧
          problem = .trustee rv.1.trustee.id (.badResponse i) := by
  have hkey {r : Responder} (hr : r ∈ p.responders) :=
    Decryptor.shareKey?_eq (h.trustees.subset (List.mem_map_of_mem hr))
  simp only [individualProblems, challenges_eq h, List.mem_flatMap, List.mem_map]
  constructor
  · rintro ⟨⟨r, cs, vs⟩, hmem, fault, hfault, rfl⟩
    obtain ⟨hrv, rfl⟩ := mem_zip_map_zip.1 hmem
    obtain ⟨hr, hvs⟩ := List.of_mem_zip hrv
    simp only [individualFaults, hkey hr, List.mem_map] at hfault
    obtain ⟨i, hi, rfl⟩ := hfault
    obtain ⟨text, htext, hflag, hbad⟩ :=
      (mem_badPositions_of_formed h hr (hresponses vs hvs)).1 hi
    refine ⟨(r, vs), hrv, i, text, htext, hflag, ?_, rfl⟩
    rintro ⟨key, hshare, hfits⟩
    rw [hkey hr, Option.some_inj] at hshare
    subst hshare
    rw [ChaumPedersenProof.accepts_iff.2 hfits] at hbad
    exact Bool.noConfusion hbad
  · rintro ⟨⟨r, vs⟩, hrv, i, text, htext, hflag, hunfit, rfl⟩
    obtain ⟨hr, hvs⟩ := List.of_mem_zip hrv
    refine ⟨(r, _, vs), mem_zip_map_zip.2 ⟨hrv, rfl⟩, .badResponse i, ?_, rfl⟩
    simp only [individualFaults, hkey hr, List.mem_map]
    refine ⟨i, (mem_badPositions_of_formed h hr (hresponses vs hvs)).2 ⟨text, htext, hflag, ?_⟩,
      rfl⟩
    rw [← Bool.not_eq_true]
    exact fun haccepts => hunfit ⟨_, hkey hr, ChaumPedersenProof.accepts_iff.1 haccepts⟩

section Seat

variable {transport : Transport (StateM σ)} {view : σ → KeyHolder} {t : TrusteeProfile}
  {c : Circumstances} {s : σ} {answer : PartialDecryptions}

theorem responder_of_answered {replies : List (Reply PartialDecryptions)}
    (hanswered : (t, .answered answer) ∈ d.trustees.zip replies)
    (hassemble : assemble d texts.length replies = .ok p) {r : Responder}
    (hr : r ∈ p.responders) (hid : r.trustee.id = t.id) : r = ⟨t, answer⟩ := by
  obtain ⟨-, -, rfl⟩ := assemble_eq_ok.1 hassemble
  obtain ⟨⟨t', reply⟩, hmem, hreply⟩ := List.mem_filterMap.1 hr
  obtain ⟨rfl, hlength⟩ := trustee_of_responder? hreply
  obtain ⟨rfl, rfl⟩ := eq_of_mem_zip d.nodup_ids hmem hanswered hid
  simp only [responder?, Option.ite_none_right_eq_some, Option.some.injEq] at hreply
  exact hreply.2.symm

variable (hseat : transport.Seats view t c)
  (hanswered : (t, .answered answer) ∈ d.trustees.zip ((askOpening d transport texts).run s).1)
include hseat hanswered

theorem decrypt_of_seat : ∃ holder u, c.Keeps (view s) holder ∧
    holder.decrypt c.openedAt c.candidates c.seed (texts.map Cipher.pad) = some (answer, u) ∧
      c.Keeps u (view ((askOpening d transport texts).run s).2) := by
  obtain ⟨before, after, hsplit, hreply, hstate⟩ := exists_call hanswered
  have hids := d.problems_eq_nil.2.2.2
  rw [hsplit, List.pairwise_append, List.pairwise_cons] at hids
  obtain ⟨-, ⟨hafter, -⟩, hbefore⟩ := hids
  have hreached := mapM_preserves (I := fun s' => c.Keeps (view s) (view s')) (l := before)
    (fun u hu s' h => h.trans (hseat.decrypt_other u (hbefore u hu t List.mem_cons_self)
      (texts.map Cipher.pad) s')) (.refl (view s))
  obtain ⟨hopening, hview⟩ := hseat.opening (texts.map Cipher.pad)
    ((before.mapM fun t => transport.decrypt t (texts.map Cipher.pad)).run s).2
  refine ⟨_, _, hreached, Circumstances.decrypt_of_opening (hopening.symm.trans hreply.symm), ?_⟩
  rw [← hview, askOpening, hstate]
  exact mapM_preserves (I := fun s' => c.Keeps _ (view s'))
    (fun u hu s' h => h.trans (hseat.decrypt_other u (hafter u hu).symm _ s')) (.refl _)

variable (hfresh : c.challengedAt - c.openedAt < (view s).tickets.ttl) (htexts : texts ≠ [])
include hfresh htexts

/-- The key holder answers round one for every ciphertext, and round two with the nonces of round
one, whatever the challenges are. -/
theorem transcript_of_seat : ∃ holder : KeyHolder, holder.Continues (view s) ∧
    answer.partials = holder.partials c.seed (texts.map Cipher.pad) ∧
    answer.invalidPads = invalidPads (texts.map Cipher.pad) ∧
    openingFaults texts.length t (.answered answer) = [] ∧
    ∀ after : σ, c.Keeps (view ((askOpening d transport texts).run s).2) (view after) →
      ∀ challenges : List Exponent, challenges.length = texts.length →
        ((transport.challenge t answer.batchId challenges).run after).1 =
          .answered ⟨answer.batchId, holder.responses c.seed challenges⟩ := by
  obtain ⟨holder, u, hholder, hdecrypt, hu⟩ := decrypt_of_seat hseat hanswered
  obtain ⟨hpartials, hinvalid, hissue⟩ :=
    KeyHolder.decrypt_eq_some (pads_ne_nil htexts) hdecrypt
  refine ⟨holder, hholder.continues, hpartials, hinvalid,
    (openingFaults_of_decrypt htexts hdecrypt t).2, ?_⟩
  intro after hafter challenges hlength
  have hlive := (hu.trans hafter).ticket answer.batchId _
    (Tickets.live_issue_self hissue (by rw [hholder.continues.ttl]; exact hfresh))
  have hwho := (hu.trans hafter).continues.trans (KeyHolder.continues_decrypt hdecrypt)
  rw [hseat.closing, Circumstances.closing_of_live hlive (by simp [hlength]), hwho.responses_eq]

section Checked

variable (hassemble : assemble d texts.length ((askOpening d transport texts).run s).1 = .ok p)
include hassemble

theorem closing_of_seat (hformed : p.Formed d texts.length) : ∃ holder : KeyHolder,
    holder.Continues (view s) ∧
    answer.partials = holder.partials c.seed (texts.map Cipher.pad) ∧
    answer.invalidPads = invalidPads (texts.map Cipher.pad) ∧
    ∀ combined : List Combined, combined.length = texts.length → ∀ r reply,
      (r, reply) ∈ p.responders.zip ((askClosing p transport combined).run
        ((askOpening d transport texts).run s).2).1 → r.trustee.id = t.id →
      r = ⟨t, answer⟩ ∧ reply = .answered ⟨answer.batchId, holder.responses c.seed
        (combined.map fun x => x.challenge * p.weightOf r)⟩ := by
  obtain ⟨holder, hwho, hpartials, hinvalid, -, hanswer⟩ :=
    transcript_of_seat hseat hanswered hfresh htexts
  refine ⟨holder, hwho, hpartials, hinvalid, ?_⟩
  intro combined hlength r reply hmem hid
  obtain rfl := responder_of_answered hanswered hassemble (List.of_mem_zip hmem).1 hid
  have hasked : ((⟨t, answer⟩, combined.map fun x => x.challenge * p.weightOf ⟨t, answer⟩), reply) ∈
      (p.responders.zip (p.challenges combined)).zip ((askClosing p transport combined).run
        ((askOpening d transport texts).run s).2).1 := by
    rw [zip_challenges hformed, List.zip_map_left]
    exact List.mem_map.2 ⟨_, hmem, rfl⟩
  obtain ⟨before, after, hsplit, rfl, -⟩ := exists_call hasked
  have hids := List.pairwise_map.1 (nodup_asked hformed combined)
  rw [hsplit, List.pairwise_append] at hids
  refine ⟨rfl, hanswer _ ?_ _ (by simpa using hlength)⟩
  exact mapM_preserves (I := fun s' => c.Keeps _ (view s'))
    (fun rc hrc s' h => h.trans (hseat.challenge_other rc.1.trustee
      (hids.2.2 rc hrc _ List.mem_cons_self) _ _ s')) (.refl _)

variable (hshare : d.roster.shareKey? t.id = some (genPow (view s).keyShare))
  (hsize : texts.length ≤ UInt64.size)
  (hcollect : collect p texts.length ((askClosing p transport (p.combine d.context texts)).run
    ((askOpening d transport texts).run s).2).1 = .ok responses)
include hshare hsize hcollect

/-- The responses of the key holder fit its commitments wherever the pad is not flagged. -/
theorem fitsAt_of_seat {r : Responder} {vs : List Exponent}
    (hrv : (r, vs) ∈ p.responders.zip responses) (hid : r.trustee.id = t.id) {i : ℕ}
    {text : Cipher} (htext : texts[i]? = some text) (hflag : p.flagged.contains i = false) :
    p.FitsAt d r vs i text := by
  have hformed : p.Formed d texts.length := formed_of_assemble (length_mapM _ _ _) hassemble
  obtain ⟨holder, hwho, hpartials, hinvalid, hclosing⟩ :=
    closing_of_seat hseat hanswered hfresh htexts hassemble hformed
  obtain ⟨reply, hreply, rfl⟩ := (mem_zip_of_collect hcollect).1 hrv
  have hcombined := p.length_combine d.context texts
  obtain ⟨rfl, hanswer⟩ := hclosing _ hcombined _ _ hreply hid
  cases hanswer
  have hpad : text.pad.IsTorsion := by
    by_contra hinvalidPad
    have hlt : i < (texts.map Cipher.pad).length := by
      rw [List.length_map]
      exact (List.getElem?_eq_some_iff.1 htext).1
    have hmem : UInt64.ofNat i ∈ answer.invalidPads := by
      rw [hinvalid, mem_invalidPads]
      refine ⟨i, text.pad, by rw [List.getElem?_map, htext, Option.map_some], ?_, rfl⟩
      rw [← Bool.not_eq_true]
      exact fun hresidue => hinvalidPad (.of_isResidue hresidue)
    have hcontains : p.flagged.contains i = true := by
      obtain ⟨-, -, rfl⟩ := assemble_eq_ok.1 hassemble
      refine contains_foldl_addFlags.2 (Or.inl ⟨_, (List.of_mem_zip hrv).1, _, hmem, ?_⟩)
      exact toNat_position (by simpa using hsize) hlt
    rw [hflag] at hcontains
    exact Bool.noConfusion hcontains
  have hpartial : (Responder.mk t answer).partialAt i =
      .ofShare holder.keyShare ((holder.nonces c.seed).atPosition i) text.pad := by
    rw [Responder.partialAt, hpartials, List.getD_eq_getElem?_getD,
      KeyHolder.getElem?_partials (by rw [List.getElem?_map, htext, Option.map_some]),
      Option.getD_some]
  refine ⟨_, hshare, ?_⟩
  rw [← ChaumPedersenProof.accepts_iff, hpartial, List.getD_eq_getElem?_getD,
    KeyHolder.getElem?_responses (getElem?_challenges d.context ⟨t, answer⟩ htext),
    Option.getD_some, ← hwho.keyShare]
  exact accepts_respond _ _ _ hpad

end Checked

/-- No problem of a session names the trustee. -/
theorem not_named_of_seat
    (hshare : d.roster.shareKey? t.id = some (genPow (view s).keyShare))
    (hsize : texts.length ≤ UInt64.size) {metrics : Metrics} {problems : List Problem}
    (hrun : ((run d transport metrics texts).run s).1.1 = .error problems) (fault : Fault) :
    Problem.trustee t.id fault ∉ problems := by
  intro hmem
  obtain ⟨holder, -, -, -, hfaults, -⟩ := transcript_of_seat hseat hanswered hfresh htexts
  rw [run_outcome d transport metrics texts s htexts] at hrun
  cases hassemble : assemble d texts.length ((askOpening d transport texts).run s).1 with
  | error ps =>
    rw [hassemble] at hrun
    cases hrun
    rcases mem_of_assemble_eq_error hassemble hmem with
      ⟨t', reply, hreply, fault', hfault, heq⟩ | ⟨answered, heq⟩
    · simp only [Problem.trustee.injEq] at heq
      obtain ⟨rfl, rfl⟩ := eq_of_mem_zip d.nodup_ids hanswered hreply heq.1
      rw [hfaults] at hfault
      cases hfault
    · cases heq
  | ok p =>
    rw [hassemble] at hrun
    have hformed : p.Formed d texts.length := formed_of_assemble (length_mapM _ _ _) hassemble
    obtain ⟨holder, -, -, -, hclosing⟩ :=
      closing_of_seat hseat hanswered hfresh htexts hassemble hformed
    have hcombined := p.length_combine d.context texts
    rcases conclude_eq_error hrun with hcollect | ⟨responses, hcollect, rfl⟩
    · obtain ⟨r, reply, hreply, fault', hfault, heq⟩ := mem_of_collect_eq_error hcollect hmem
      simp only [Problem.trustee.injEq] at heq
      obtain ⟨rfl, rfl⟩ := hclosing _ hcombined r reply hreply heq.1.symm
      rw [closingFaults_answered (r := ⟨t, answer⟩) (by simp [hcombined])] at hfault
      cases hfault
    · obtain ⟨-, hrows⟩ := length_of_collect (length_askClosing hformed _) hcollect
      obtain ⟨rv, hrv, i, text, htext, hflag, hunfit, heq⟩ :=
        (mem_individualProblems hformed hrows).1 hmem
      simp only [Problem.trustee.injEq] at heq
      exact hunfit (fitsAt_of_seat hseat hanswered hfresh htexts hassemble hshare hsize hcollect hrv
        heq.1.symm htext hflag)

end Seat

end Session

section Blame

variable {σ : Type} {transport : Transport (StateM σ)} {view : σ → KeyHolder} {t : TrusteeProfile}
  {c : Circumstances} {s : σ} {d : Decryptor} {texts : List Cipher} {answer : PartialDecryptions}

/-- Whatever the other trustees answer, a trustee that follows the protocol is not named by any
problem of the session. When all answers are in, the problems are the pairs of responder and
unflagged position whose responses do not fit. -/
theorem honest_trustee_unblamed (hchecks : d.config.checkIndividualResponses = true)
    (hseat : transport.Seats view t c)
    (hanswered : (t, .answered answer) ∈ d.trustees.zip ((askOpening d transport texts).run s).1)
    (hfresh : c.challengedAt - c.openedAt < (view s).tickets.ttl)
    (hshare : d.roster.shareKey? t.id = some (genPow (view s).keyShare))
    (hsize : texts.length ≤ UInt64.size) (metrics : Metrics) :
    (∀ problems, ((run d transport metrics texts).run s).1.1 = .error problems →
      ∀ fault, Problem.trustee t.id fault ∉ problems) ∧
    ∀ p responses, texts ≠ [] →
      assemble d texts.length ((askOpening d transport texts).run s).1 = .ok p →
      collect p texts.length ((askClosing p transport (p.combine d.context texts)).run
        ((askOpening d transport texts).run s).2).1 = .ok responses →
      ∃ problems, ((run d transport metrics texts).run s).1.1 =
          unlessProblems problems (publish p (p.combine d.context texts) responses) ∧
        ∀ problem, problem ∈ problems ↔
          ∃ rv ∈ p.responders.zip responses, ∃ i text, texts[i]? = some text ∧
            p.flagged.contains i = false ∧ ¬ p.FitsAt d rv.1 rv.2 i text ∧
              problem = .trustee rv.1.trustee.id (.badResponse i) := by
  constructor
  · intro problems hrun fault
    by_cases htexts : texts = []
    · subst htexts
      cases hrun
    · exact not_named_of_seat hseat hanswered hfresh htexts hshare hsize hrun fault
  · intro p responses htexts hassemble hcollect
    have hformed : p.Formed d texts.length := formed_of_assemble (length_mapM _ _ _) hassemble
    obtain ⟨-, hrows⟩ := length_of_collect
      ((length_mapM _ _ _).trans (by rw [zip_challenges hformed, List.length_map])) hcollect
    refine ⟨individualProblems d.roster p texts (p.challenges (p.combine d.context texts))
      responses, ?_, fun problem => mem_individualProblems hformed hrows⟩
    rw [run_outcome d transport metrics texts s htexts, hassemble]
    simp only [conclude, hcollect, hchecks, if_true]

/-- A key holder that follows the protocol, among trustees that answer as they please. -/
def Household.among (t : TrusteeProfile) (c : Circumstances)
    (opening : TrusteeProfile → List Element → Reply PartialDecryptions)
    (closing : TrusteeProfile → BatchId → List Exponent → Reply ChallengeResponses) :
    Transport (StateM Household) where
  decrypt u pads :=
    if u.id = t.id then call t.id fun holder => c.opening holder pads else pure (opening u pads)
  challenge u id cs :=
    if u.id = t.id then call t.id fun holder => c.closing holder id cs else pure (closing u id cs)

section Among

variable (opening : TrusteeProfile → List Element → Reply PartialDecryptions)
  (closing : TrusteeProfile → BatchId → List Exponent → Reply ChallengeResponses)

theorem Household.among_decrypt_other {u : TrusteeProfile} (hu : u.id ≠ t.id)
    (pads : List Element) :
    (Household.among t c opening closing).decrypt u pads = pure (opening u pads) :=
  if_neg hu

theorem Household.among_challenge_other {u : TrusteeProfile} (hu : u.id ≠ t.id) (id : BatchId)
    (cs : List Exponent) :
    (Household.among t c opening closing).challenge u id cs = pure (closing u id cs) :=
  if_neg hu

theorem Household.seats_among :
    (Household.among t c opening closing).Seats (fun s => s t.id) t c where
  opening pads s := by
    have hcall : (Household.among t c opening closing).decrypt t pads =
        call t.id fun holder => c.opening holder pads := if_pos rfl
    rw [hcall]
    exact ⟨rfl, Function.update_self _ _ _⟩
  closing id cs s := by
    have hcall : (Household.among t c opening closing).challenge t id cs =
        call t.id fun holder => c.closing holder id cs := if_pos rfl
    rw [hcall]
    rfl
  decrypt_other u hu pads s := by
    rw [among_decrypt_other opening closing hu]
    exact .refl _
  challenge_other u hu id cs s := by
    rw [among_challenge_other opening closing hu]
    exact .refl _

theorem Household.mem_askOpening_self (ht : t ∈ d.trustees) (texts : List Cipher)
    (s : Household) :
    (t, (c.opening (s t.id) (texts.map Cipher.pad)).1) ∈
      d.trustees.zip ((askOpening d (Household.among t c opening closing) texts).run s).1 := by
  have hothers : ∀ x ∈ d.trustees, x ≠ t → ∀ s', s = s' →
      s = (((Household.among t c opening closing).decrypt x (texts.map Cipher.pad)).run s').2 := by
    intro x hx hxt s' hs
    have hid : x.id ≠ t.id := fun hid => hxt (List.inj_on_of_nodup_map d.nodup_ids hx ht hid)
    rw [among_decrypt_other opening closing hid]
    exact hs
  obtain ⟨_, rfl, hmem⟩ := exists_reply (I := (s = ·)) ht hothers rfl
  rwa [((seats_among opening closing).opening _ _).1] at hmem

theorem Household.mem_askOpening_other {u : TrusteeProfile} (hu : u ∈ d.trustees)
    (hne : u.id ≠ t.id) (texts : List Cipher) (s : Household) :
    (u, opening u (texts.map Cipher.pad)) ∈
      d.trustees.zip ((askOpening d (Household.among t c opening closing) texts).run s).1 := by
  obtain ⟨_, -, hmem⟩ := exists_reply (I := fun _ => True) (s := s) hu (fun _ _ _ _ h => h)
    (f := fun x => (Household.among t c opening closing).decrypt x (texts.map Cipher.pad)) trivial
  rwa [among_decrypt_other opening closing hne] at hmem

end Among

theorem honest_trustee_unblamed_among_crashed :
    ∃ (e : DealtElection) (d : Decryptor), ∃ t ∈ d.trustees, ∃ problems,
      e.secretKey = ⟨9⟩ ∧ t.id = Dealer.guardianId 1 ∧
        ((run d (Household.among t (straggling t.id) (fun _ _ => .crashed) fun _ _ _ => .crashed) {}
          [.elgamal ⟨genPow ⟨5⟩, .one⟩]).run e.household).1.1 = .error problems ∧
            ∀ fault, Problem.trustee t.id fault ∉ problems := by
  obtain ⟨e, d, hdealt, hsecret, hnew, hstaff, hids, -, hfresh⟩ := exists_committee "manifest" {}
  obtain ⟨_, hbacking, -, hshares, -⟩ := backing_of_dealt hdealt hnew hstaff
  obtain ⟨-, -, -, hconfig⟩ := Decryptor.new_eq_ok hnew
  have htexts : [Cipher.elgamal ⟨genPow ⟨5⟩, .one⟩] ≠ [] := List.cons_ne_nil _ _
  have hmember (x : UInt32) (hx : Dealer.guardianId x ∈
      [Dealer.guardianId 1, Dealer.guardianId 2]) :
      ∃ t ∈ d.trustees, (straggling t.id).answers (e.household t.id) = true ∧
        t.id = Dealer.guardianId x := by
    rw [← hids] at hx
    obtain ⟨t, ht, hid⟩ := List.mem_map.1 hx
    obtain ⟨ht, hanswers⟩ := List.mem_filter.1 ht
    exact ⟨t, ht, hanswers, hid⟩
  obtain ⟨t, ht, hanswers, hfirst⟩ := hmember 1 (by simp)
  obtain ⟨u, hu, -, hsecond⟩ := hmember 2 (by simp)
  have hne : u.id ≠ t.id := by
    rw [hfirst, hsecond]
    exact Dealer.guardianId_injective.ne (by decide)
  obtain ⟨answer, v, -, hopening⟩ :=
    Circumstances.opening_of_answers (pads_ne_nil htexts) hanswers
  have hanswered := Household.mem_askOpening_self (c := straggling t.id) (fun _ _ => .crashed)
    (fun _ _ _ => .crashed) ht [.elgamal ⟨genPow ⟨5⟩, .one⟩] e.household
  have hcrashed := Household.mem_askOpening_other (c := straggling t.id) (fun _ _ => .crashed)
    (fun _ _ _ => .crashed) hu hne [.elgamal ⟨genPow ⟨5⟩, .one⟩] e.household
  rw [hopening] at hanswered
  have hshare : d.roster.shareKey? t.id = some (genPow (e.household t.id).keyShare) := by
    rw [hbacking.shareKey? ht, hshares t ht]
  obtain ⟨hunnamed, -⟩ := honest_trustee_unblamed (by rw [hconfig]) (Household.seats_among _ _)
    hanswered (hfresh t ht hanswers) hshare (by decide) {}
  refine ⟨e, d, t, ht, ?_⟩
  rw [run_outcome _ _ _ _ _ htexts] at hunnamed ⊢
  split at hunnamed
  · next problems hassemble =>
    exact ⟨problems, hsecret, hfirst, rfl, hunnamed problems rfl⟩
  · next p hassemble =>
    have hfaults := (assemble_eq_ok.1 hassemble).1 _ hcrashed
    simp [openingFaults] at hfaults

end Blame

end ThresholdElGamal
