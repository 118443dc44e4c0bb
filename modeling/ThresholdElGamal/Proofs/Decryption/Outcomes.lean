import ThresholdElGamal.Proofs.Decryption.Blame
import ThresholdElGamal.Proofs.Decryption.Positions

/-! # Which sessions end well

A session ends well exactly when a quorum answers round one, whoever answers does so completely in
both rounds, and the transcripts fit wherever they are checked. Every other session ends with the
reasons why. The record of a session that ends well leaves out the positions that a trustee
flagged, and names the trustees that answered.
-/

namespace ThresholdElGamal

namespace Session

/-- The trustees that answered round one in time, well or not. -/
def answering (ts : List TrusteeProfile) (replies : List (Reply PartialDecryptions)) :
    List TrusteeProfile :=
  ((ts.zip replies).filter fun tr => !tr.2.isSilent).map (·.1)

/-- A position that some answer of round one flags. -/
def FlaggedAt (ts : List TrusteeProfile) (replies : List (Reply PartialDecryptions)) (i : ℕ) :
    Prop :=
  ∃ t a, (t, .answered a) ∈ ts.zip replies ∧ ∃ k ∈ a.invalidPads, k.toNat = i

/-- A quorum answered round one, everyone with a contribution for each of `n` ciphertexts and with
flags within the batch. -/
structure OpeningComplete (d : Decryptor) (n : ℕ) (replies : List (Reply PartialDecryptions)) :
    Prop where
  quorum : d.context.quorum.toNat ≤ (answering d.trustees replies).length
  answered : ∀ tr ∈ d.trustees.zip replies, tr.2.isSilent = false →
    ∃ a, tr.2 = .answered a ∧ a.partials.length = n ∧ ∀ k ∈ a.invalidPads, k.toNat < n

/-- The panel of everyone who contributed to each of `n` ciphertexts. -/
def panelOf (d : Decryptor) (n : ℕ) (replies : List (Reply PartialDecryptions)) : Panel where
  responders := respondersOf n d.trustees replies
  weights := Decryptor.weightsOf ((respondersOf n d.trustees replies).map (·.trustee))
  flagged := (respondersOf n d.trustees replies).foldl Responder.addFlags .empty

/-- Every responder answered round two, for its own batch and each ciphertext. -/
def ClosingComplete (n : ℕ) (p : Panel) (replies : List (Reply ChallengeResponses)) : Prop :=
  ∀ rr ∈ p.responders.zip replies, ∃ a, rr.2 = .answered a ∧
    a.batchId = rr.1.answer.batchId ∧ a.responses.length = n

/-- Every transcript at a position that is not flagged fits. -/
def TranscriptsFit (d : Decryptor) (texts : List Cipher) (p : Panel)
    (flagged : ℕ → Prop) (replies : List (Reply ChallengeResponses)) : Prop :=
  ∀ r a, (r, .answered a) ∈ p.responders.zip replies → ∀ i text, texts[i]? = some text →
    ¬ flagged i → p.FitsAt d r a.responses i text

/-- All that a session asks of the replies of both rounds. -/
structure Complete (d : Decryptor) (texts : List Cipher)
    (opening : List (Reply PartialDecryptions)) (closing : List (Reply ChallengeResponses)) :
    Prop where
  roundOne : OpeningComplete d texts.length opening
  roundTwo : ClosingComplete texts.length (panelOf d texts.length opening) closing
  transcripts : d.config.checkIndividualResponses = true →
    TranscriptsFit d texts (panelOf d texts.length opening) (FlaggedAt d.trustees opening) closing

section Replies

variable {σ : Type} (d : Decryptor) (transport : Transport (StateM σ)) (texts : List Cipher) (s : σ)

def openingReplies : List (Reply PartialDecryptions) := ((askOpening d transport texts).run s).1

def closingReplies : List (Reply ChallengeResponses) :=
  let p := panelOf d texts.length (openingReplies d transport texts s)
  ((askClosing p transport (p.combine d.context texts)).run
    ((askOpening d transport texts).run s).2).1

end Replies

section Opening

variable {d : Decryptor} {n : ℕ} {p : Panel} {t : TrusteeProfile}
  {replies : List (Reply PartialDecryptions)}

theorem openingFaults_eq_nil {reply : Reply PartialDecryptions} :
    openingFaults n t reply = [] ↔ (reply.isSilent = false →
      ∃ a, reply = .answered a ∧ a.partials.length = n ∧ ∀ k ∈ a.invalidPads, k.toNat < n) := by
  cases reply with
  | answered a => by_cases h : a.partials.length = n <;> simp [openingFaults, Reply.isSilent, h]
  | silent => simp [openingFaults, Reply.isSilent]
  | crashed => simp [openingFaults, Reply.isSilent]
  | refused e => simp [openingFaults, Reply.isSilent]

theorem mem_respondersOf {ts : List TrusteeProfile} {r : Responder} :
    r ∈ respondersOf n ts replies ↔
      (r.trustee, .answered r.answer) ∈ ts.zip replies ∧ r.answer.partials.length = n := by
  simp only [respondersOf, List.mem_filterMap, Prod.exists]
  constructor
  · rintro ⟨t, reply, hmem, hr⟩
    cases reply with
    | answered a =>
      simp only [responder?, Option.ite_none_right_eq_some, Option.some.injEq] at hr
      obtain ⟨hlength, rfl⟩ := hr
      exact ⟨hmem, hlength⟩
    | silent => cases hr
    | crashed => cases hr
    | refused e => cases hr
  · rintro ⟨hmem, hlength⟩
    exact ⟨_, _, hmem, if_pos hlength⟩

theorem responder?_of_isSilent {reply : Reply PartialDecryptions}
    (hsilent : reply.isSilent = true) : responder? n t reply = none := by
  cases reply with
  | silent => rfl
  | answered a => cases hsilent
  | crashed => rfl
  | refused e => rfl

theorem trustees_respondersOf {ts : List TrusteeProfile}
    (hfaults : ∀ tr ∈ ts.zip replies, openingFaults n tr.1 tr.2 = []) :
    (respondersOf n ts replies).map (·.trustee) = answering ts replies := by
  rw [respondersOf, List.map_filterMap, answering, ← List.filterMap_eq_map, List.filterMap_filter]
  apply List.filterMap_congr
  intro tr htr
  cases hsilent : tr.2.isSilent with
  | true =>
    change (responder? n tr.1 tr.2).map _ = _
    rw [responder?_of_isSilent hsilent]
    rfl
  | false =>
    obtain ⟨r, hr⟩ := responder?_isSome (hfaults tr htr) hsilent
    change (responder? n tr.1 tr.2).map _ = _
    rw [hr, Option.map_some, (trustee_of_responder? hr).1]
    rfl

theorem assemble_eq_ok_iff (hlength : replies.length = d.trustees.length) :
    assemble d n replies = .ok p ↔ OpeningComplete d n replies ∧ panelOf d n replies = p := by
  rw [assemble_eq_ok]
  constructor
  · rintro ⟨hfaults, hquorum, rfl⟩
    have htrustees := trustees_respondersOf hfaults
    refine ⟨⟨?_, fun tr htr => openingFaults_eq_nil.1 (hfaults tr htr)⟩, ?_⟩
    · rwa [← htrustees, List.length_map]
    · rw [weights_eq_weightsOf hlength hfaults]
      rfl
  · rintro ⟨⟨hquorum, hanswered⟩, rfl⟩
    have hfaults : ∀ tr ∈ d.trustees.zip replies, openingFaults n tr.1 tr.2 = [] :=
      fun tr htr => openingFaults_eq_nil.2 (hanswered tr htr)
    refine ⟨hfaults, ?_, ?_⟩
    · rwa [← trustees_respondersOf hfaults, List.length_map] at hquorum
    · rw [weights_eq_weightsOf hlength hfaults]
      rfl

theorem contains_panelOf (h : OpeningComplete d n replies) {i : ℕ} :
    (panelOf d n replies).flagged.contains i = true ↔ FlaggedAt d.trustees replies i := by
  rw [panelOf, contains_foldl_addFlags]
  constructor
  · rintro (⟨r, hr, k, hk, hi⟩ | hempty)
    · exact ⟨_, _, (mem_respondersOf.1 hr).1, k, hk, hi⟩
    · cases hempty
  · rintro ⟨t, a, hmem, k, hk, hi⟩
    obtain ⟨a', heq, hpartials, -⟩ := h.answered _ hmem rfl
    cases heq
    exact Or.inl ⟨⟨t, a⟩, mem_respondersOf.2 ⟨hmem, hpartials⟩, k, hk, hi⟩

end Opening

section Closing

variable {d : Decryptor} {n : ℕ} {p : Panel} {texts : List Cipher}
  {replies : List (Reply ChallengeResponses)} {responses : List (List Exponent)}

theorem closingFaults_eq_nil {r : Responder} {reply : Reply ChallengeResponses} :
    closingFaults n r reply = [] ↔ ∃ a, reply = .answered a ∧
      a.batchId = r.answer.batchId ∧ a.responses.length = n := by
  cases reply with
  | answered a => simp [closingFaults]
  | silent => simp [closingFaults]
  | crashed => simp [closingFaults]
  | refused e => simp [closingFaults]

theorem exists_collect_iff :
    (∃ responses, collect p n replies = .ok responses) ↔ ClosingComplete n p replies := by
  simp only [collect_eq_ok, exists_and_left, exists_eq', and_true, closingFaults_eq_nil]
  rfl

theorem individualProblems_eq_nil_iff_fit (hformed : p.Formed d texts.length)
    (hlength : replies.length = p.responders.length) {flagged : ℕ → Prop}
    (hflagged : ∀ i, p.flagged.contains i = true ↔ flagged i)
    (hcollect : collect p texts.length replies = .ok responses) :
    individualProblems d.roster p texts (p.challenges (p.combine d.context texts)) responses = [] ↔
      TranscriptsFit d texts p flagged replies := by
  obtain ⟨-, hrows⟩ := length_of_collect hlength hcollect
  simp only [List.eq_nil_iff_forall_not_mem, mem_individualProblems hformed hrows]
  constructor
  · intro hnone r a hmem i text htext hi
    by_contra hunfit
    rw [← hflagged, Bool.not_eq_true] at hi
    exact hnone _ ⟨(r, a.responses), (mem_zip_of_collect hcollect).2 ⟨a, hmem, rfl⟩, i,
      text, htext, hi, hunfit, rfl⟩
  · rintro hfit problem ⟨⟨r, vs⟩, hrv, i, text, htext, hi, hunfit, -⟩
    obtain ⟨a, hmem, rfl⟩ := (mem_zip_of_collect hcollect).1 hrv
    exact hunfit (hfit r a hmem i text htext (by rw [← hflagged, hi]; exact Bool.false_ne_true))

theorem exists_conclude_iff (hformed : p.Formed d texts.length)
    (hlength : replies.length = p.responders.length) {flagged : ℕ → Prop}
    (hflagged : ∀ i, p.flagged.contains i = true ↔ flagged i) :
    (∃ record, conclude d p texts (p.combine d.context texts) replies = .ok record) ↔
      ClosingComplete texts.length p replies ∧ (d.config.checkIndividualResponses = true →
        TranscriptsFit d texts p flagged replies) := by
  simp only [conclude_eq_ok]
  rw [← exists_collect_iff]
  constructor
  · rintro ⟨record, responses, hcollect, hproblems, -⟩
    refine ⟨⟨responses, hcollect⟩, fun hchecks => ?_⟩
    exact (individualProblems_eq_nil_iff_fit hformed hlength hflagged hcollect).1
      (hproblems hchecks)
  · rintro ⟨⟨responses, hcollect⟩, hfit⟩
    refine ⟨_, responses, hcollect, fun hchecks => ?_, rfl⟩
    exact (individualProblems_eq_nil_iff_fit hformed hlength hflagged hcollect).2 (hfit hchecks)

end Closing

section Outcome

variable {σ : Type} {d : Decryptor} {transport : Transport (StateM σ)} {metrics : Metrics}
  {texts : List Cipher} {s : σ} {record : Decryptions} {problems : List Problem}

theorem length_openingReplies :
    (openingReplies d transport texts s).length = d.trustees.length :=
  length_mapM _ _ _

section RoundTwo

variable (hopening : OpeningComplete d texts.length (openingReplies d transport texts s))
include hopening

theorem formed_panelOf :
    (panelOf d texts.length (openingReplies d transport texts s)).Formed d texts.length :=
  formed_of_assemble length_openingReplies
    ((assemble_eq_ok_iff length_openingReplies).2 ⟨hopening, rfl⟩)

theorem length_closingReplies : (closingReplies d transport texts s).length =
    (panelOf d texts.length (openingReplies d transport texts s)).responders.length :=
  length_askClosing (formed_panelOf hopening) _

/-- A session goes on to round two when round one is complete. -/
theorem run_of_opening (htexts : texts ≠ []) :
    ((run d transport metrics texts).run s).1.1 =
      conclude d (panelOf d texts.length (openingReplies d transport texts s)) texts
        ((panelOf d texts.length (openingReplies d transport texts s)).combine d.context texts)
        (closingReplies d transport texts s) := by
  have hassemble := (assemble_eq_ok_iff length_openingReplies).2 ⟨hopening, rfl⟩
  rw [openingReplies] at hassemble
  rw [run_outcome d transport metrics texts s htexts, hassemble]
  rfl

end RoundTwo

variable (htexts : texts ≠ [])
include htexts

/-- A session that fails says why. -/
theorem problems_ne_nil_of_run
    (hrun : ((run d transport metrics texts).run s).1.1 = .error problems) : problems ≠ [] := by
  rw [run_outcome d transport metrics texts s htexts] at hrun
  split at hrun
  · next hassemble =>
    obtain ⟨hne, rfl⟩ := unlessProblems_eq_error.1 hassemble
    cases hrun
    exact hne
  · next p hassemble =>
    unfold conclude at hrun
    split at hrun
    · next hcollect =>
      obtain ⟨hne, rfl⟩ := unlessProblems_eq_error.1 hcollect
      cases hrun
      exact hne
    · obtain ⟨hne, rfl⟩ := unlessProblems_eq_error.1 hrun
      exact hne

theorem exists_record_iff :
    (∃ record, ((run d transport metrics texts).run s).1.1 = .ok record) ↔
      Complete d texts (openingReplies d transport texts s)
        (closingReplies d transport texts s) := by
  by_cases hopening : OpeningComplete d texts.length (openingReplies d transport texts s)
  · rw [run_of_opening hopening htexts, exists_conclude_iff (formed_panelOf hopening)
      (length_closingReplies hopening) fun i => contains_panelOf hopening]
    exact ⟨fun h => ⟨hopening, h.1, h.2⟩, fun h => ⟨h.roundTwo, h.transcripts⟩⟩
  · rw [run_outcome d transport metrics texts s htexts]
    refine iff_of_false ?_ fun h => hopening h.roundOne
    rintro ⟨record, hrecord⟩
    split at hrecord
    · cases hrecord
    · next hassemble => exact hopening ((assemble_eq_ok_iff length_openingReplies).1 hassemble).1

theorem record_of_run (hrun : ((run d transport metrics texts).run s).1.1 = .ok record) :
    record.items.length = texts.length ∧
      (∀ i < texts.length, record.items[i]? = some none ↔
        FlaggedAt d.trustees (openingReplies d transport texts s) i) ∧
      record.guardianIds =
        (answering d.trustees (openingReplies d transport texts s)).map (·.id) := by
  obtain ⟨hopening, -, -⟩ := (exists_record_iff htexts).1 ⟨record, hrun⟩
  have hformed := formed_panelOf hopening
  rw [run_of_opening hopening htexts] at hrun
  obtain ⟨responses, hcollect, -, rfl⟩ := conclude_eq_ok.1 hrun
  obtain ⟨-, hrows⟩ := length_of_collect (length_closingReplies hopening) hcollect
  refine ⟨length_items, fun i hi => ?_, ?_⟩
  · rw [getElem?_items d.context hformed hrows, List.getElem?_eq_getElem hi, Option.map_some,
      ← contains_panelOf hopening]
    split <;> simp [*]
  · rw [← trustees_respondersOf fun tr htr => openingFaults_eq_nil.2 (hopening.answered tr htr),
      List.map_map]
    rfl

/-- The records of sessions have no flags behind their places, so that their verification misses
nothing. -/
theorem wellFormed_iff_of_run (hrun : ((run d transport metrics texts).run s).1.1 = .ok record)
    (context : ElectionContext) :
    record.WellFormed texts context ↔ record.verify texts context = true := by
  obtain ⟨hopening, -, -⟩ := (exists_record_iff htexts).1 ⟨record, hrun⟩
  rw [run_of_opening hopening htexts] at hrun
  obtain ⟨responses, -, -, rfl⟩ := conclude_eq_ok.1 hrun
  rw [Decryptions.wellFormed_iff, and_iff_left]
  intro i hi
  obtain ⟨t, a, hmem, k, hk, rfl⟩ := (contains_panelOf hopening).1 (Flags.contains_iff.2 hi)
  obtain ⟨a', heq, -, hwithin⟩ := hopening.answered _ hmem rfl
  cases heq
  rw [Set.mem_Iio, length_items]
  exact hwithin k hk

end Outcome

end Session

section FailClosed

open Session

variable {σ : Type} {texts : List Cipher}

/-- A session never reads out of range. It ends well exactly when all that it asks of the replies is
met, and fails with a message in every other case. The record leaves out exactly the flagged
positions and names exactly the trustees that answered. -/
theorem session_fails_closed (d : Decryptor) (transport : Transport (StateM σ)) (metrics : Metrics)
    (htexts : texts ≠ []) (s : σ) :
    (run? d transport texts).run s =
        (some ((run d transport metrics texts).run s).1.1,
          ((run d transport metrics texts).run s).2) ∧
      ((∃ record, ((run d transport metrics texts).run s).1.1 = .ok record) ↔
        Complete d texts (openingReplies d transport texts s)
          (closingReplies d transport texts s)) ∧
      (¬ Complete d texts (openingReplies d transport texts s)
          (closingReplies d transport texts s) →
        ∃ problems, ((run d transport metrics texts).run s).1.1 = .error problems ∧
          problems.map Problem.message ≠ []) ∧
      ∀ record, ((run d transport metrics texts).run s).1.1 = .ok record →
        record.items.length = texts.length ∧
        (∀ i < texts.length, record.items[i]? = some none ↔
          FlaggedAt d.trustees (openingReplies d transport texts s) i) ∧
        record.guardianIds =
          (answering d.trustees (openingReplies d transport texts s)).map (·.id) := by
  refine ⟨run?_eq d transport metrics texts s, exists_record_iff htexts, fun hincomplete => ?_,
    fun record => record_of_run htexts⟩
  cases hrun : ((run d transport metrics texts).run s).1.1 with
  | error problems =>
    refine ⟨problems, rfl, ?_⟩
    rw [Ne, List.map_eq_nil_iff]
    exact problems_ne_nil_of_run htexts hrun
  | ok record => exact absurd ((exists_record_iff htexts).1 ⟨record, hrun⟩) hincomplete

theorem session_fails_closed_two_of_three :
    ∃ (e : DealtElection) (d : Decryptor) (record : Decryptions), e.secretKey = ⟨9⟩ ∧
      (run? d (Household.transport straggling)
          [.elgamal ⟨⟨0⟩, .one⟩, .elgamal ⟨genPow ⟨5⟩, .one⟩]).run e.household =
        (some (.ok record), ((run d (Household.transport straggling) {}
          [.elgamal ⟨⟨0⟩, .one⟩, .elgamal ⟨genPow ⟨5⟩, .one⟩]).run e.household).2) ∧
        record.items.length = 2 := by
  obtain ⟨e, d, hdealt, hsecret, hnew, hstaff, -, hquorum, hfresh⟩ :=
    exists_committee "manifest" {}
  obtain ⟨_, hbacking, -, hshares, hpos⟩ := backing_of_dealt hdealt hnew hstaff
  have htexts : [Cipher.elgamal ⟨⟨0⟩, .one⟩, .elgamal ⟨genPow ⟨5⟩, .one⟩] ≠ [] :=
    List.cons_ne_nil _ _
  obtain ⟨_, _, hrun, -⟩ :=
    exists_record hbacking hshares hpos hquorum hfresh (by decide) htexts {}
  obtain ⟨hreads, -, -, hrecord⟩ :=
    session_fails_closed d (Household.transport straggling) {} htexts e.household
  rw [hrun] at hreads
  exact ⟨e, d, _, hsecret, hreads, (hrecord _ hrun).1⟩

end FailClosed

end ThresholdElGamal
