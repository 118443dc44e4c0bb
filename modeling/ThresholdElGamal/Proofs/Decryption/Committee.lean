import ThresholdElGamal.Proofs.Decryption.Flags
import ThresholdElGamal.Proofs.Decryption.Records
import ThresholdElGamal.Proofs.Trustee.Answers

/-! # Committees that follow the protocol

A committee of key holders is reached by name. Every member follows the protocol, whatever seed
and batch ids it draws, whatever other batches it has open and whether or not it answers round
one in time. As long as a quorum does, the session ends well: the responders are the members that
answered, their contributions are the pads to their shares, they flag exactly the pads outside the
subgroup, and their responses fit their commitments.
-/

namespace ThresholdElGamal

/-- What surrounds the two calls that a session makes to a trustee. -/
structure Circumstances where
  /-- Whether the answer of round one arrives in time. -/
  punctual : Bool
  openedAt : ℕ
  challengedAt : ℕ
  seed : Exponent
  /-- The batch ids that the trustee tries. -/
  candidates : List BatchId

open Session

namespace Circumstances

variable (c : Circumstances) (t : KeyHolder)

/-- Whether a key holder answers round one. -/
def answers : Bool := c.punctual && c.candidates.any (t.tickets.sweep c.openedAt).isFree

def opening (pads : List Element) : Reply PartialDecryptions × KeyHolder :=
  match t.decrypt c.openedAt c.candidates c.seed pads with
  | some (answer, t) => (if c.punctual then .answered answer else .silent, t)
  | none => (.silent, t)

def closing (batchId : BatchId) (challenges : List Exponent) :
    Reply ChallengeResponses × KeyHolder :=
  let (answer, t) := t.challenge c.challengedAt batchId challenges
  match answer with
  | .ok answer => (.answered answer, t)
  | .error e => (.refused e, t)

variable {c t} {pads : List Element}

theorem opening_of_answers (hpads : pads ≠ []) (h : c.answers t = true) :
    ∃ answer u, t.decrypt c.openedAt c.candidates c.seed pads = some (answer, u) ∧
      c.opening t pads = (.answered answer, u) := by
  rw [answers, Bool.and_eq_true, ← KeyHolder.decrypt_isSome c.seed hpads,
    Option.isSome_iff_exists] at h
  obtain ⟨hpunctual, ⟨answer, u⟩, hdecrypt⟩ := h
  exact ⟨answer, u, hdecrypt, by simp [opening, hdecrypt, hpunctual]⟩

theorem opening_of_not_answers (hpads : pads ≠ []) (h : c.answers t = false) :
    (c.opening t pads).1 = .silent := by
  rw [answers, Bool.and_eq_false_iff, ← KeyHolder.decrypt_isSome c.seed hpads] at h
  cases hdecrypt : t.decrypt c.openedAt c.candidates c.seed pads with
  | none => simp [opening, hdecrypt]
  | some answer =>
    rcases h with hlate | hnone
    · simp [opening, hdecrypt, hlate]
    · simp [hdecrypt] at hnone

theorem continues_opening : (c.opening t pads).2.Continues t := by
  unfold opening
  split
  · next answer u h => exact KeyHolder.continues_decrypt h
  · exact .refl t

theorem continues_closing (batchId : BatchId) (challenges : List Exponent) :
    (c.closing t batchId challenges).2.Continues t := by
  have h := KeyHolder.continues_challenge (t := t) c.challengedAt batchId challenges
  simp only [closing]
  split <;> exact h

theorem challenge_of_closing {n : ℕ} {r : Responder} {batchId : BatchId}
    {challenges : List Exponent}
    (h : closingFaults n r (c.closing t batchId challenges).1 = []) :
    ∃ response, (t.challenge c.challengedAt batchId challenges).1 = .ok response := by
  cases hresponse : (t.challenge c.challengedAt batchId challenges).1 with
  | ok response => exact ⟨response, rfl⟩
  | error e => simp [closing, hresponse, closingFaults] at h

end Circumstances

/-- The key holders behind the trustees, by name. -/
abbrev Household := String → KeyHolder

namespace Household

/-- Makes a call to the key holder of a name. -/
def call {α : Type} (name : String) (step : KeyHolder → α × KeyHolder) : StateM Household α :=
  fun s => ((step (s name)).1, Function.update s name (step (s name)).2)

/-- Key holders that follow the protocol. -/
def transport (c : String → Circumstances) : Transport (StateM Household) where
  decrypt t pads := call t.id fun holder => (c t.id).opening holder pads
  challenge t batchId challenges :=
    call t.id fun holder => (c t.id).closing holder batchId challenges

variable {α β : Type} (key : α → String) (step : α → KeyHolder → β × KeyHolder)

theorem frame_mapM_call {l : List α} {name : String} (hname : name ∉ l.map key) (s : Household) :
    ((l.mapM fun x => call (key x) (step x)).run s).2 name = s name := by
  induction l generalizing s with
  | nil => rfl
  | cons x l ih =>
    rw [List.map_cons, List.mem_cons, not_or] at hname
    rw [List.mapM_cons, run_bind, run_bind]
    refine (ih hname.2 _).trans ?_
    exact Function.update_of_ne hname.1 _ _

/-- Calls to different key holders do not see each other. -/
theorem mapM_call {l : List α} (hkeys : (l.map key).Nodup) (s : Household) :
    ((l.mapM fun x => call (key x) (step x)).run s).1 = l.map (fun x => (step x (s (key x))).1) ∧
      ∀ x ∈ l, ((l.mapM fun x => call (key x) (step x)).run s).2 (key x) =
        (step x (s (key x))).2 := by
  induction l generalizing s with
  | nil => exact ⟨rfl, by simp⟩
  | cons x l ih =>
    rw [List.map_cons, List.nodup_cons] at hkeys
    obtain ⟨hx, hl⟩ := hkeys
    obtain ⟨houtputs, hstates⟩ := ih hl (Function.update s (key x) (step x (s (key x))).2)
    have hother : ∀ y ∈ l,
        Function.update s (key x) (step x (s (key x))).2 (key y) = s (key y) := by
      intro y hy
      apply Function.update_of_ne
      intro heq
      exact hx (heq ▸ List.mem_map_of_mem hy)
    rw [List.mapM_cons, run_bind, run_bind]
    constructor
    · refine congrArg (_ :: ·) (houtputs.trans ?_)
      apply List.map_congr_left
      intro y hy
      rw [hother y hy]
    · rw [List.forall_mem_cons]
      constructor
      · refine (frame_mapM_call key step hx _).trans ?_
        exact Function.update_self _ _ _
      · intro y hy
        rw [← hother y hy]
        exact hstates y hy

/-- Calls leave the other key holders alone, so each of them remains who it is. -/
theorem continues_mapM_call (hstep : ∀ x t, (step x t).2.Continues t) (l : List α) (s : Household)
    (name : String) :
    (((l.mapM fun x => call (key x) (step x)).run s).2 name).Continues (s name) := by
  induction l generalizing s with
  | nil => exact .refl _
  | cons x l ih =>
    rw [List.mapM_cons, run_bind, run_bind]
    refine (ih _).trans ?_
    change (Function.update s (key x) (step x (s (key x))).2 name).Continues (s name)
    by_cases hname : name = key x
    · subst hname
      rw [Function.update_self]
      exact hstep x _
    · rw [Function.update_of_ne hname]
      exact .refl _

end Household

namespace Session

variable {d : Decryptor} {c : String → Circumstances} {s : Household} {texts : List Cipher}
  {p : Panel}

/-- The panel of the members that answer, with what they answered. -/
structure Panel.Honest (d : Decryptor) (c : String → Circumstances) (s : Household)
    (texts : List Cipher) (p : Panel) : Prop where
  trustees : p.responders.map (·.trustee) = d.trustees.filter fun t => (c t.id).answers (s t.id)
  decrypted : ∀ r ∈ p.responders, ∃ u,
    (s r.trustee.id).decrypt (c r.trustee.id).openedAt (c r.trustee.id).candidates
        (c r.trustee.id).seed (texts.map Cipher.pad) = some (r.answer, u) ∧
      ((askOpening d (Household.transport c) texts).run s).2 r.trustee.id = u
  flagged : p.flagged = p.responders.foldl Responder.addFlags .empty

theorem askOpening_replies : ((askOpening d (Household.transport c) texts).run s).1 =
    d.trustees.map fun t => ((c t.id).opening (s t.id) (texts.map Cipher.pad)).1 :=
  (Household.mapM_call TrusteeProfile.id
    (fun t holder => (c t.id).opening holder (texts.map Cipher.pad)) d.nodup_ids s).1

section Opening

variable (htexts : texts ≠ [])
include htexts

theorem pads_ne_nil : texts.map Cipher.pad ≠ [] := by
  simpa using htexts

theorem openingFaults_of_decrypt {holder u : KeyHolder} {now : ℕ} {candidates : List BatchId}
    {seed : Exponent} {answer : PartialDecryptions}
    (h : holder.decrypt now candidates seed (texts.map Cipher.pad) = some (answer, u))
    (t : TrusteeProfile) :
    answer.partials.length = texts.length ∧
      openingFaults texts.length t (.answered answer) = [] := by
  obtain ⟨hpartials, hinvalid, -⟩ := KeyHolder.decrypt_eq_some (pads_ne_nil htexts) h
  have hlength : answer.partials.length = texts.length := by simp [hpartials]
  refine ⟨hlength, ?_⟩
  rw [openingFaults, if_pos hlength, List.map_eq_nil_iff, List.filter_eq_nil_iff, hinvalid]
  intro k hk hle
  obtain ⟨i, pad, hpad, -, rfl⟩ := mem_invalidPads.1 hk
  have hi := (List.getElem?_eq_some_iff.1 hpad).1
  have hmod := Nat.mod_le i (2 ^ 64)
  rw [List.length_map] at hi
  simp only [UInt64.toNat_ofNat', decide_eq_true_eq] at hle
  omega

theorem responder?_opening {t : TrusteeProfile} (h : (c t.id).answers (s t.id) = true) :
    ∃ r u, responder? texts.length t ((c t.id).opening (s t.id) (texts.map Cipher.pad)).1 = some r ∧
      (s t.id).decrypt (c t.id).openedAt (c t.id).candidates (c t.id).seed (texts.map Cipher.pad) =
        some (r.answer, u) ∧
        (c t.id).opening (s t.id) (texts.map Cipher.pad) = (.answered r.answer, u) := by
  obtain ⟨answer, u, hdecrypt, hopening⟩ :=
    Circumstances.opening_of_answers (pads_ne_nil htexts) h
  obtain ⟨hlength, -⟩ := openingFaults_of_decrypt htexts hdecrypt t
  exact ⟨⟨t, answer⟩, u, by rw [hopening]; exact if_pos hlength, hdecrypt, hopening⟩

theorem openingFaults_opening (t : TrusteeProfile) :
    openingFaults texts.length t ((c t.id).opening (s t.id) (texts.map Cipher.pad)).1 = [] := by
  have hpads := pads_ne_nil htexts
  cases h : (c t.id).answers (s t.id) with
  | false =>
    rw [Circumstances.opening_of_not_answers hpads h]
    rfl
  | true =>
    obtain ⟨answer, u, hdecrypt, hopening⟩ := Circumstances.opening_of_answers hpads h
    rw [hopening]
    exact (openingFaults_of_decrypt htexts hdecrypt t).2

theorem respondersOf_opening (ts : List TrusteeProfile) :
    (respondersOf texts.length ts
        (ts.map fun t => ((c t.id).opening (s t.id) (texts.map Cipher.pad)).1)).map (·.trustee) =
      ts.filter fun t => (c t.id).answers (s t.id) := by
  have hpads := pads_ne_nil htexts
  induction ts with
  | nil => rfl
  | cons t ts ih =>
    simp only [respondersOf, List.map_cons, List.zip_cons_cons] at ih ⊢
    cases h : (c t.id).answers (s t.id) with
    | false =>
      rw [List.filterMap_cons_none, List.filter_cons_of_neg (by simp [h]), ih]
      rw [Circumstances.opening_of_not_answers hpads h]
      rfl
    | true =>
      obtain ⟨r, u, hr, -, -⟩ := responder?_opening htexts h
      simp only [List.filterMap_cons, hr, List.map_cons, ih, (trustee_of_responder? hr).1,
        List.filter_cons, h, if_true]

theorem decrypted_of_responder? {t : TrusteeProfile} {r : Responder}
    (h : responder? texts.length t ((c t.id).opening (s t.id) (texts.map Cipher.pad)).1 = some r) :
    ∃ u, (s t.id).decrypt (c t.id).openedAt (c t.id).candidates (c t.id).seed
          (texts.map Cipher.pad) = some (r.answer, u) ∧
      ((c t.id).opening (s t.id) (texts.map Cipher.pad)).2 = u := by
  cases hanswers : (c t.id).answers (s t.id) with
  | false =>
    rw [Circumstances.opening_of_not_answers (pads_ne_nil htexts) hanswers] at h
    cases h
  | true =>
    obtain ⟨r', u, hr', hdecrypt, hopening⟩ := responder?_opening htexts hanswers
    rw [hr', Option.some_inj] at h
    subst h
    exact ⟨u, hdecrypt, by rw [hopening]⟩

theorem honest_of_assemble (h : assemble d texts.length
      ((askOpening d (Household.transport c) texts).run s).1 = .ok p) :
    p.Honest d c s texts := by
  obtain ⟨-, hstates⟩ := Household.mapM_call TrusteeProfile.id
    (fun t holder => (c t.id).opening holder (texts.map Cipher.pad)) d.nodup_ids s
  rw [askOpening_replies] at h
  obtain ⟨-, -, rfl⟩ := assemble_eq_ok.1 h
  refine ⟨respondersOf_opening htexts d.trustees, ?_, rfl⟩
  intro r hr
  obtain ⟨⟨t, reply⟩, htr, hreply⟩ := List.mem_filterMap.1 hr
  obtain ⟨i, hi, hget⟩ := List.getElem_of_mem htr
  simp only [List.getElem_zip, List.getElem_map, Prod.mk.injEq] at hget
  obtain ⟨ht, rfl⟩ := hget
  rw [ht] at hreply
  obtain ⟨u, hdecrypt, hopening⟩ := decrypted_of_responder? htexts hreply
  obtain rfl := (trustee_of_responder? hreply).1
  refine ⟨u, hdecrypt, ?_⟩
  rw [← hopening]
  exact hstates r.trustee (ht ▸ List.getElem_mem _)

theorem exists_honest (hquorum : d.context.quorum.toNat ≤
      (d.trustees.filter fun t => (c t.id).answers (s t.id)).length) :
    ∃ p, assemble d texts.length ((askOpening d (Household.transport c) texts).run s).1 = .ok p ∧
      p.Honest d c s texts := by
  have htrustees := respondersOf_opening (c := c) (s := s) htexts d.trustees
  rw [← htrustees, List.length_map] at hquorum
  obtain ⟨p, hassemble⟩ : ∃ p, assemble d texts.length
      ((askOpening d (Household.transport c) texts).run s).1 = .ok p := by
    rw [askOpening_replies]
    refine ⟨_, assemble_eq_ok.2 ⟨?_, hquorum, rfl⟩⟩
    intro tr htr
    obtain ⟨i, hi, rfl⟩ := List.getElem_of_mem htr
    simp only [List.getElem_zip, List.getElem_map]
    exact openingFaults_opening htexts _
  exact ⟨p, hassemble, honest_of_assemble htexts hassemble⟩

end Opening

section Closing

def nonceAt (c : String → Circumstances) (s : Household) (r : Responder) (i : ℕ) : Exponent :=
  ((s r.trustee.id).nonces (c r.trustee.id).seed).atPosition i

/-- What a member answers to the challenges of round two. -/
def respondsTo (c : String → Circumstances) (s : Household) (r : Responder)
    (challenges : List Exponent) : ChallengeResponses :=
  ⟨r.answer.batchId, challenges.zipIdx.map fun (ch, i) =>
    (s r.trustee.id).keyShare.respond (nonceAt c s r i) ch⟩

theorem getD_respondsTo {r : Responder} {challenges : List Exponent} {i : ℕ} {ch : Exponent}
    (h : challenges[i]? = some ch) : (respondsTo c s r challenges).responses.getD i .zero =
      (s r.trustee.id).keyShare.respond (nonceAt c s r i) ch := by
  simp [respondsTo, List.getD_eq_getElem?_getD, List.getElem?_map, List.getElem?_zipIdx, h]

/-- No ticket of a member that answers expires between the rounds. -/
def Fresh (d : Decryptor) (c : String → Circumstances) (s : Household) : Prop :=
  ∀ t ∈ d.trustees, (c t.id).answers (s t.id) = true →
    (c t.id).challengedAt - (c t.id).openedAt < (s t.id).tickets.ttl

variable (htexts : texts ≠ []) (hfresh : Fresh d c s) (hhonest : p.Honest d c s texts)
  (hformed : p.Formed d texts.length)
include htexts hfresh hhonest hformed

omit hformed in
theorem closing_of_honest {r : Responder} (hr : r ∈ p.responders) {challenges : List Exponent}
    (hlength : challenges.length = texts.length) :
    ((c r.trustee.id).closing
      (((askOpening d (Household.transport c) texts).run s).2 r.trustee.id) r.answer.batchId
        challenges).1 = .answered (respondsTo c s r challenges) := by
  have hpads := pads_ne_nil htexts
  obtain ⟨u, hdecrypt, hstate⟩ := hhonest.decrypted r hr
  have hmem : r.trustee ∈ d.trustees.filter fun t => (c t.id).answers (s t.id) := by
    rw [← hhonest.trustees]
    exact List.mem_map_of_mem hr
  obtain ⟨htrustee, hanswers⟩ := List.mem_filter.1 hmem
  have hchallenge := KeyHolder.challenge_of_decrypt hpads hdecrypt (hfresh _ htrustee hanswers)
    (hlength.trans (List.length_map _).symm)
  rw [hstate, Circumstances.closing]
  simp only [hchallenge]
  rfl

omit htexts hfresh hhonest in
theorem askClosing_replies (combined : List Combined) (s : Household) :
    ((askClosing p (Household.transport c) combined).run s).1 = p.responders.map fun r =>
      ((c r.trustee.id).closing (s r.trustee.id) r.answer.batchId
        (combined.map fun x => x.challenge * p.weightOf r)).1 := by
  refine (Household.mapM_call (fun rc : Responder × List Exponent => rc.1.trustee.id)
    (fun rc holder => (c rc.1.trustee.id).closing holder rc.1.answer.batchId rc.2)
      (nodup_asked hformed combined) s).1.trans ?_
  rw [zip_challenges hformed, List.map_map]
  rfl

omit hfresh in
/-- A session that ends well has met no ticket that expired. -/
theorem fresh_of_collect {combined : List Combined} {responses : List (List Exponent)}
    (h : collect p texts.length ((askClosing p (Household.transport c) combined).run
      ((askOpening d (Household.transport c) texts).run s).2).1 = .ok responses) :
    Fresh d c s := by
  have hpads := pads_ne_nil htexts
  intro t ht hanswers
  have hmem : t ∈ p.responders.map (·.trustee) := by
    rw [hhonest.trustees]
    exact List.mem_filter.2 ⟨ht, hanswers⟩
  obtain ⟨r, hr, rfl⟩ := List.mem_map.1 hmem
  obtain ⟨u, hdecrypt, hstate⟩ := hhonest.decrypted r hr
  have hfaults := (collect_eq_ok.1 h).1
  rw [askClosing_replies hformed, zip_map_self, List.forall_mem_map] at hfaults
  obtain ⟨response, hresponse⟩ := Circumstances.challenge_of_closing (hfaults r hr)
  rw [hstate] at hresponse
  exact KeyHolder.fresh_of_challenge hpads hdecrypt hresponse

theorem askClosing_of_honest (combined : List Combined) (hlength : combined.length = texts.length) :
    ((askClosing p (Household.transport c) combined).run
      ((askOpening d (Household.transport c) texts).run s).2).1 =
        p.responders.map fun r => .answered
          (respondsTo c s r (combined.map fun x => x.challenge * p.weightOf r)) := by
  rw [askClosing_replies hformed]
  apply List.map_congr_left
  intro r hr
  exact closing_of_honest htexts hfresh hhonest hr (by simpa using hlength)

theorem collect_of_honest (combined : List Combined) (hlength : combined.length = texts.length) :
    collect p texts.length ((askClosing p (Household.transport c) combined).run
      ((askOpening d (Household.transport c) texts).run s).2).1 =
        .ok (p.responders.map fun r =>
          (respondsTo c s r (combined.map fun x => x.challenge * p.weightOf r)).responses) := by
  rw [askClosing_of_honest htexts hfresh hhonest hformed combined hlength, collect_eq_ok]
  constructor
  · intro rr hrr
    obtain ⟨i, hi, rfl⟩ := List.getElem_of_mem hrr
    simp only [List.getElem_zip, List.getElem_map]
    exact closingFaults_answered (by simp [hlength])
  · rw [List.filterMap_map]
    exact congrFun List.filterMap_eq_map _

end Closing

/-- After a session, however it ended, every key holder still is who it was. -/
theorem continues_run (d : Decryptor) (c : String → Circumstances) (metrics : Metrics)
    (texts : List Cipher) (s : Household) (name : String) :
    (((run d (Household.transport c) metrics texts).run s).2 name).Continues (s name) := by
  have hopening : (((askOpening d (Household.transport c) texts).run s).2 name).Continues
      (s name) :=
    Household.continues_mapM_call TrusteeProfile.id
      (fun t holder => (c t.id).opening holder (texts.map Cipher.pad))
      (fun _ _ => Circumstances.continues_opening) _ s name
  unfold run
  split
  · exact .refl _
  · rw [run_bind]
    cases assemble d texts.length ((askOpening d (Household.transport c) texts).run s).1 with
    | error problems => exact hopening
    | ok p =>
      refine KeyHolder.Continues.trans ?_ hopening
      exact Household.continues_mapM_call
        (fun rc : Responder × List Exponent => rc.1.trustee.id)
        (fun rc holder => (c rc.1.trustee.id).closing holder rc.1.answer.batchId rc.2)
        (fun _ _ => Circumstances.continues_closing _ _) _ _ name

end Session

end ThresholdElGamal
