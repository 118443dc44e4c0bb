import ThresholdElGamal.Proofs.Trustee.Answers
import ThresholdElGamal.Proofs.Trustee.TicketHistories

/-! # Histories of a key holder

A key holder is asked in any order to open batches, to answer challenges and to drop what is stale,
with any number of batches open. The live tickets are at every time those of the batches that were
opened, are fresh and have not been answered. So a challenge is answered exactly when such a batch
of its length waits under the id, with the nonces behind the commitments of that batch, and no
batch is answered twice.
-/

namespace ThresholdElGamal.KeyHolder

/-- A batch that was opened, with the answer of round one. -/
structure Opening where
  openedAt : ℕ
  seed : Exponent
  pads : List Element
  answer : PartialDecryptions

/-- A call that was made to a key holder, with its outcome. -/
inductive Event where
  | opened (batch : Opening)
  | challenged (now : ℕ) (id : BatchId) (challenges : List Exponent)
    (outcome : Except TrusteeError ChallengeResponses)
  | expired (now dropped : ℕ)

def Event.time : Event → ℕ
  | opened batch => batch.openedAt
  | challenged now _ _ _ => now
  | expired now _ => now

/-- One call: what happens, and the key holder afterwards. -/
inductive Step : KeyHolder → Event → KeyHolder → Prop where
  | decrypt {t u : KeyHolder} {now : ℕ} {candidates : List BatchId} {seed : Exponent}
      {pads : List Element} {answer : PartialDecryptions} :
      t.decrypt now candidates seed pads = some (answer, u) →
        Step t (.opened ⟨now, seed, pads, answer⟩) u
  | challenge (t : KeyHolder) (now : ℕ) (id : BatchId) (challenges : List Exponent) :
      Step t (.challenged now id challenges (t.challenge now id challenges).1)
        (t.challenge now id challenges).2
  | expire (t : KeyHolder) (now : ℕ) : Step t (.expired now (t.expire now).1) (t.expire now).2

/-- Any calls, one after the other, on a clock that does not run backwards. -/
inductive History (start : KeyHolder) : List Event → KeyHolder → Prop where
  | nil : History start [] start
  | snoc {events : List Event} {t u : KeyHolder} {event : Event} :
      History start events t → (∀ e ∈ events, e.time ≤ event.time) → Step t event u →
        History start (events ++ [event]) u

/-- The batch was opened at a position, and no challenge was answered under its id since. -/
def Pending (events : List Event) (position : ℕ) (batch : Opening) : Prop :=
  events[position]? = some (.opened batch) ∧ batch.pads ≠ [] ∧
    ∀ later, position < later → ∀ now challenges response,
      events[later]? ≠ some (.challenged now batch.answer.batchId challenges (.ok response))

/-- The responses are those of the share under the nonces behind the commitments of the batch. The
subtractions that they take are defined, and they recompute the commitments: the first ones always,
the second ones for every pad in the subgroup. -/
structure AnswersFor (name : String) (share : Exponent) (batch : Opening)
    (challenges : List Exponent) (response : ChallengeResponses) : Prop where
  batchId : response.batchId = batch.answer.batchId
  size : batch.pads.length = challenges.length
  length : response.responses.length = challenges.length
  responds : ∀ i c pad, challenges[i]? = some c → batch.pads[i]? = some pad →
    ∃ nonce v m, nonce = Nonces.atPosition ⟨batch.seed, name⟩ i ∧
      response.responses[i]? = some v ∧ batch.answer.partials[i]? = some m ∧
        m = .ofShare share nonce pad ∧ nonce.sub? (c * share) = some v ∧ v.val < order ∧
          genPow v * genPow share ^ c = m.a ∧
            (pad.isResidue = true → pad ^ v * m.mi ^ c = m.b)

variable {start t u : KeyHolder} {events : List Event} {event : Event} {position : ℕ}
  {batch : Opening}

theorem pending_snoc : Pending (events ++ [event]) position batch ↔
    (position = events.length ∧ event = .opened batch ∧ batch.pads ≠ []) ∨
      (Pending events position batch ∧ ∀ now challenges response,
        event ≠ .challenged now batch.answer.batchId challenges (.ok response)) := by
  constructor
  · rintro ⟨hget, hne, hlater⟩
    rcases getElem?_snoc_eq_some.1 hget with hget | ⟨rfl, rfl⟩
    · have hlt : position < events.length := (List.getElem?_eq_some_iff.1 hget).1
      refine Or.inr ⟨⟨hget, hne, ?_⟩, ?_⟩
      · intro later hlater' now challenges response h
        exact hlater later hlater' now challenges response (getElem?_snoc_eq_some.2 (Or.inl h))
      · intro now challenges response h
        exact hlater _ hlt now challenges response (getElem?_snoc_eq_some.2 (Or.inr ⟨rfl, h⟩))
    · exact Or.inl ⟨rfl, rfl, hne⟩
  · rintro (⟨rfl, rfl, hne⟩ | ⟨⟨hget, hne, hlater⟩, hevent⟩)
    · refine ⟨getElem?_snoc_eq_some.2 (Or.inr ⟨rfl, rfl⟩), hne, ?_⟩
      intro later hlater now challenges response h
      rw [List.getElem?_eq_none (by simpa using hlater)] at h
      cases h
    · refine ⟨getElem?_snoc_eq_some.2 (Or.inl hget), hne, ?_⟩
      intro later hlater' now challenges response h
      rcases getElem?_snoc_eq_some.1 h with h | ⟨-, h⟩
      · exact hlater later hlater' now challenges response h
      · exact hevent now challenges response h

section Prefix

variable {now now' opening k l : ℕ} {id id' : BatchId} {challenges challenges' : List Exponent}
  {response response' : ChallengeResponses} {batch' : Opening}

theorem Pending.opened (h : Pending (events.take k) opening batch) :
    opening < k ∧ events[opening]? = some (.opened batch) := by
  have hlt : opening < k := by
    have hlength := (List.getElem?_eq_some_iff.1 h.1).1
    rw [List.length_take] at hlength
    omega
  refine ⟨hlt, ?_⟩
  rw [← List.getElem?_take_of_lt hlt]
  exact h.1

/-- The challenge that is answered for a batch is the first that is answered under its id. -/
theorem Pending.le_of_answered (hk : Pending (events.take k) opening batch)
    (hl : Pending (events.take l) opening batch') (hid : batch.answer.batchId = id)
    (hevent : events[k]? = some (.challenged now id challenges (.ok response))) : l ≤ k := by
  obtain ⟨hlt, hbatch⟩ := hk.opened
  obtain ⟨-, hbatch'⟩ := hl.opened
  rw [hbatch, Option.some_inj, Event.opened.injEq] at hbatch'
  subst hbatch' hid
  by_contra hkl
  refine hl.2.2 k hlt now challenges response ?_
  rw [List.getElem?_take_of_lt (Nat.lt_of_not_le hkl), hevent]

end Prefix

theorem History.continues (h : History start events t) : t.Continues start := by
  induction h with
  | nil => exact .refl _
  | snoc _ _ hstep ih =>
    refine KeyHolder.Continues.trans ?_ ih
    cases hstep with
    | decrypt h => exact continues_decrypt h
    | challenge now id challenges => exact continues_challenge now id challenges
    | expire now => exact continues_expire now

theorem clock_snoc {later : ℕ} : (∀ e ∈ events ++ [event], e.time ≤ later) ↔
    (∀ e ∈ events, e.time ≤ later) ∧ event.time ≤ later := by
  rw [List.forall_mem_append, List.forall_mem_singleton]

/-- The live tickets are those of the fresh batches that are pending. -/
def Tracks (ttl : ℕ) (events : List Event) (t : KeyHolder) : Prop :=
  ∀ now, (∀ e ∈ events, e.time ≤ now) → ∀ id ticket,
    t.tickets.live now id = some ticket ↔ ∃ position batch, Pending events position batch ∧
      batch.answer.batchId = id ∧ now - batch.openedAt < ttl ∧
        ticket = ⟨batch.seed, batch.pads.length, batch.openedAt⟩

theorem leaves_pending_iff {now : ℕ} {id id' : BatchId} {challenges : List Exponent}
    {outcome : Except TrusteeError ChallengeResponses} :
    (∀ now' challenges' response, Event.challenged now id challenges outcome ≠
        .challenged now' id' challenges' (.ok response)) ↔
      ¬ (id' = id ∧ outcome.isOk = true) := by
  constructor
  · rintro h ⟨rfl, hok⟩
    cases outcome with
    | error e => cases hok
    | ok response => exact h now challenges response rfl
  · rintro h now' challenges' response heq
    cases heq
    exact h ⟨rfl, rfl⟩

theorem isOk_challenge (t : KeyHolder) (now : ℕ) (id : BatchId) (challenges : List Exponent) :
    (t.challenge now id challenges).1.isOk =
      (t.tickets.redeem now id challenges.length).1.isOk := by
  rw [challenge_eq]
  cases (t.tickets.redeem now id challenges.length).1 <;> rfl

section Step

variable {ttl : ℕ} (htracks : Tracks ttl events t)
include htracks

theorem Tracks.challenge (now : ℕ) (id : BatchId) (challenges : List Exponent) :
    Tracks ttl (events ++ [.challenged now id challenges (t.challenge now id challenges).1])
      (t.challenge now id challenges).2 := by
  intro later hclock id' ticket
  obtain ⟨hevents, hle⟩ := clock_snoc.1 hclock
  change now ≤ later at hle
  change (t.tickets.redeem now id challenges.length).2.live later id' = some ticket ↔ _
  rw [Tickets.live_redeem hle, ← isOk_challenge]
  simp only [pending_snoc, reduceCtorEq, false_and, and_false, false_or, leaves_pending_iff]
  by_cases hanswered : id' = id ∧ (t.challenge now id challenges).1.isOk = true
  · rw [if_pos hanswered]
    constructor
    · rintro ⟨⟩
    · rintro ⟨position, batch, ⟨-, hleaves⟩, rfl, -, -⟩
      exact absurd hanswered hleaves
  · rw [if_neg hanswered, htracks later hevents]
    constructor
    · rintro ⟨position, batch, hpending, rfl, hrest⟩
      exact ⟨position, batch, ⟨hpending, hanswered⟩, rfl, hrest⟩
    · rintro ⟨position, batch, ⟨hpending, -⟩, hrest⟩
      exact ⟨position, batch, hpending, hrest⟩

theorem Tracks.expire (now : ℕ) :
    Tracks ttl (events ++ [.expired now (t.expire now).1]) (t.expire now).2 := by
  intro later hclock id ticket
  obtain ⟨hevents, hle⟩ := clock_snoc.1 hclock
  change now ≤ later at hle
  change (t.tickets.sweep now).live later id = some ticket ↔ _
  rw [Tickets.live_sweep hle, htracks later hevents]
  simp [pending_snoc]

variable (httl : t.tickets.ttl = ttl)
include httl

theorem Tracks.decrypt {now : ℕ} {candidates : List BatchId} {seed : Exponent}
    {pads : List Element} {answer : PartialDecryptions}
    (h : t.decrypt now candidates seed pads = some (answer, u)) :
    Tracks ttl (events ++ [.opened ⟨now, seed, pads, answer⟩]) u := by
  intro later hclock id ticket
  obtain ⟨hevents, hle⟩ := clock_snoc.1 hclock
  change now ≤ later at hle
  simp only [pending_snoc, Event.opened.injEq, reduceCtorEq, ne_eq, not_false_eq_true,
    implies_true, and_true]
  by_cases hpads : pads = []
  · subst hpads
    have hu : u.tickets = t.tickets := by
      cases h
      rfl
    rw [hu, htracks later hevents]
    constructor
    · rintro ⟨position, batch, hpending, hrest⟩
      exact ⟨position, batch, Or.inr hpending, hrest⟩
    · rintro ⟨position, batch, ⟨-, rfl, hne⟩ | hpending, hrest⟩
      · exact absurd rfl hne
      · exact ⟨position, batch, hpending, hrest⟩
  · obtain ⟨-, -, hissue⟩ := decrypt_eq_some hpads h
    have hfree := Tickets.live_of_issue hissue hle
    rw [Tickets.live_issue hissue hle, httl]
    by_cases hnew : id = answer.batchId ∧ later - now < ttl
    · obtain ⟨rfl, hfresh⟩ := hnew
      rw [if_pos ⟨rfl, hfresh⟩, Option.some_inj]
      constructor
      · rintro rfl
        exact ⟨_, _, Or.inl ⟨rfl, rfl, hpads⟩, rfl, hfresh, rfl⟩
      · rintro ⟨position, batch, ⟨-, rfl, -⟩ | hpending, hid, hlive, rfl⟩
        · rfl
        · have hold := (htracks later hevents _ _).2 ⟨position, batch, hpending, hid, hlive, rfl⟩
          rw [hfree] at hold
          cases hold
    · rw [if_neg hnew, htracks later hevents]
      constructor
      · rintro ⟨position, batch, hpending, hrest⟩
        exact ⟨position, batch, Or.inr hpending, hrest⟩
      · rintro ⟨position, batch, ⟨-, rfl, -⟩ | hpending, hid, hfresh, hticket⟩
        · exact absurd ⟨hid.symm, hfresh⟩ hnew
        · exact ⟨position, batch, hpending, hid, hfresh, hticket⟩

end Step

section Run

variable (h : History start events t) (hempty : start.tickets.entries = [])
include h

theorem History.exists_step (hevent : events[position]? = some event) :
    ∃ before after, History start (events.take position) before ∧
      (∀ e ∈ events.take position, e.time ≤ event.time) ∧ Step before event after := by
  induction h with
  | nil => simp at hevent
  | @snoc events t u last hhistory hclock hstep ih =>
    rcases getElem?_snoc_eq_some.1 hevent with hbefore | ⟨rfl, rfl⟩
    · rw [List.take_append_of_le_length (List.getElem?_eq_some_iff.1 hbefore).1.le]
      exact ih hbefore
    · rw [List.take_left]
      exact ⟨t, u, hhistory, hclock, hstep⟩

theorem History.partials_eq (hevent : events[position]? = some (.opened batch))
    (hpads : batch.pads ≠ []) : batch.answer.partials = start.partials batch.seed batch.pads := by
  obtain ⟨before, after, hhistory, -, hstep⟩ := h.exists_step hevent
  cases hstep with
  | decrypt hdecrypt =>
    rw [← hhistory.continues.partials_eq]
    exact (decrypt_eq_some hpads hdecrypt).1

include hempty

theorem History.tracks : Tracks start.tickets.ttl events t := by
  induction h with
  | nil =>
    intro now _ id ticket
    simp [Tickets.live, Tickets.sweep, Tickets.get?, hempty, Pending]
  | snoc hhistory _ hstep ih =>
    cases hstep with
    | decrypt hdecrypt => exact ih.decrypt hhistory.continues.ttl hdecrypt
    | challenge now id challenges => exact ih.challenge now id challenges
    | expire now => exact ih.expire now

variable {now : ℕ} {id : BatchId} {challenges : List Exponent}

/-- A challenge is answered exactly when a fresh batch of its length is pending under the id. -/
theorem History.answered_iff {outcome : Except TrusteeError ChallengeResponses}
    (hevent : events[position]? = some (.challenged now id challenges outcome)) :
    (∃ response, outcome = .ok response) ↔ ∃ opening batch,
      Pending (events.take position) opening batch ∧ batch.answer.batchId = id ∧
        now - batch.openedAt < start.tickets.ttl ∧ batch.pads.length = challenges.length := by
  obtain ⟨before, after, hhistory, hclock, hstep⟩ := h.exists_step hevent
  have htracks := hhistory.tracks hempty now hclock id
  cases hstep with
  | challenge =>
    simp only [challenge_eq_ok]
    constructor
    · rintro ⟨response, ticket, hlive, hsize, -⟩
      obtain ⟨opening, batch, hpending, hid, hfresh, rfl⟩ := (htracks ticket).1 hlive
      exact ⟨opening, batch, hpending, hid, hfresh, hsize⟩
    · rintro ⟨opening, batch, hpending, hid, hfresh, hsize⟩
      exact ⟨_, _, (htracks _).2 ⟨opening, batch, hpending, hid, hfresh, rfl⟩, hsize, rfl⟩

theorem History.answersFor {response : ChallengeResponses}
    (hevent : events[position]? = some (.challenged now id challenges (.ok response))) :
    ∃ opening batch, Pending (events.take position) opening batch ∧ batch.answer.batchId = id ∧
      now - batch.openedAt < start.tickets.ttl ∧
        AnswersFor start.profile.id start.keyShare batch challenges response := by
  obtain ⟨before, after, hhistory, hclock, hstep⟩ := h.exists_step hevent
  have htracks := hhistory.tracks hempty now hclock id
  have hwho := hhistory.continues
  generalize houtcome : Except.ok response = outcome at hstep
  cases hstep with
  | challenge =>
    obtain ⟨ticket, hlive, hsize, rfl⟩ := challenge_eq_ok.1 houtcome.symm
    obtain ⟨opening, batch, hpending, rfl, hfresh, rfl⟩ := (htracks ticket).1 hlive
    refine ⟨opening, batch, hpending, rfl, hfresh, rfl, hsize, length_responses, ?_⟩
    intro i c pad hc hpad
    have hpartials := hhistory.partials_eq hpending.1 hpending.2.1
    refine ⟨_, _, _, rfl, ?_, ?_, rfl, sub?_mul _ _ _, respond_lt _ _ _, genPow_respond _ _ _, ?_⟩
    · rw [hwho.responses_eq, getElem?_responses hc]
      rfl
    · rw [hpartials, getElem?_partials hpad]
      rfl
    · exact fun hresidue => pow_respond _ _ _ (.of_isResidue hresidue)

/-- No two challenges are answered for one batch. -/
theorem History.exists_openingOf : ∃ openingOf : ℕ → ℕ,
    Set.InjOn openingOf {position | ∃ now id challenges response,
      events[position]? = some (.challenged now id challenges (.ok response))} ∧
    ∀ position now id challenges response,
      events[position]? = some (.challenged now id challenges (.ok response)) →
        ∃ batch, Pending (events.take position) (openingOf position) batch ∧
          batch.answer.batchId = id ∧ now - batch.openedAt < start.tickets.ttl ∧
            AnswersFor start.profile.id start.keyShare batch challenges response := by
  have hopening : ∀ position, ∃ opening, ∀ now id challenges response,
      events[position]? = some (.challenged now id challenges (.ok response)) →
        ∃ batch, Pending (events.take position) opening batch ∧ batch.answer.batchId = id ∧
          now - batch.openedAt < start.tickets.ttl ∧
            AnswersFor start.profile.id start.keyShare batch challenges response := by
    intro position
    by_cases hanswered : ∃ now id challenges response,
        events[position]? = some (.challenged now id challenges (.ok response))
    · obtain ⟨now, id, challenges, response, hevent⟩ := hanswered
      obtain ⟨opening, hbatch⟩ := h.answersFor hempty hevent
      refine ⟨opening, ?_⟩
      intro now' id' challenges' response' hevent'
      rw [hevent] at hevent'
      cases hevent'
      exact hbatch
    · refine ⟨0, ?_⟩
      intro now id challenges response hevent
      exact absurd ⟨now, id, challenges, response, hevent⟩ hanswered
  choose openingOf hopeningOf using hopening
  refine ⟨openingOf, ?_, hopeningOf⟩
  rintro k ⟨now, id, challenges, response, hk⟩ l ⟨now', id', challenges', response', hl⟩ heq
  obtain ⟨batch, hpending, hid, -⟩ := hopeningOf k now id challenges response hk
  obtain ⟨batch', hpending', hid', -⟩ := hopeningOf l now' id' challenges' response' hl
  rw [← heq] at hpending'
  exact le_antisymm (hpending'.le_of_answered hpending hid' hl)
    (hpending.le_of_answered hpending' hid hk)

end Run

/-- After a refused challenge, every challenge finds what it would have found without it. -/
theorem challenge_of_refused {now later : ℕ} {id : BatchId} {challenges : List Exponent}
    {e : TrusteeError} (h : (t.challenge now id challenges).1 = .error e) (hle : now ≤ later)
    (id' : BatchId) (challenges' : List Exponent) :
    ((t.challenge now id challenges).2.challenge later id' challenges').1 =
      (t.challenge later id' challenges').1 := by
  have hrefused : (t.tickets.redeem now id challenges.length).1.isOk = false := by
    rw [← isOk_challenge, h]
    rfl
  have hlive : (t.challenge now id challenges).2.tickets.live later id' =
      t.tickets.live later id' := by
    change (t.tickets.redeem now id challenges.length).2.live later id' = _
    rw [Tickets.live_redeem hle, hrefused]
    simp
  have hredeem : ((t.challenge now id challenges).2.tickets.redeem later id' challenges'.length).1 =
      (t.tickets.redeem later id' challenges'.length).1 := by
    rw [Tickets.redeem_eq, Tickets.redeem_eq, hlive]
  rw [challenge_eq, challenge_eq, hredeem]
  rfl

/-- In whatever order a key holder is called, every call is defined, and a challenge is answered
exactly when a fresh batch of its length waits under the id. It is answered with the nonces behind
the commitments of that batch, and no two challenges are answered for one batch. A refused
challenge leaves all others as they were. -/
theorem answers_each_batch_once {profile : TrusteeProfile} {share : Exponent} {ttl : ℕ}
    (h : History (.new profile share ttl) events t) :
    ((∀ now candidates seed pads, candidates.any (t.tickets.sweep now).isFree = true →
        (t.decrypt now candidates seed pads).isSome = true) ∧
      (∀ nonce c, nonce.sub? (c * t.keyShare) = some (t.keyShare.respond nonce c)) ∧
      ∀ now, (t.tickets.sweep now).size ≤ t.tickets.size) ∧
    (∀ position now id challenges outcome,
      events[position]? = some (.challenged now id challenges outcome) →
        ((∃ response, outcome = .ok response) ↔ ∃ opening batch,
          Pending (events.take position) opening batch ∧ batch.answer.batchId = id ∧
            now - batch.openedAt < ttl ∧ batch.pads.length = challenges.length)) ∧
    (∃ openingOf : ℕ → ℕ,
      Set.InjOn openingOf {position | ∃ now id challenges response,
        events[position]? = some (.challenged now id challenges (.ok response))} ∧
      ∀ position now id challenges response,
        events[position]? = some (.challenged now id challenges (.ok response)) →
          ∃ batch, Pending (events.take position) (openingOf position) batch ∧
            batch.answer.batchId = id ∧ now - batch.openedAt < ttl ∧
              AnswersFor profile.id share batch challenges response) ∧
    ∀ now id challenges e, (t.challenge now id challenges).1 = .error e →
      ∀ later, now ≤ later → ∀ id' challenges',
        ((t.challenge now id challenges).2.challenge later id' challenges').1 =
          (t.challenge later id' challenges').1 := by
  refine ⟨⟨?_, fun _ _ => sub?_mul _ _ _, Tickets.size_sweep_le _⟩, ?_, ?_, ?_⟩
  · intro now candidates seed pads hfree
    by_cases hpads : pads = []
    · subst hpads
      rfl
    · rw [decrypt_isSome seed hpads, hfree]
  · intro position now id challenges outcome hevent
    exact h.answered_iff rfl hevent
  · exact h.exists_openingOf rfl
  · intro now id challenges e hrefused later hle id' challenges'
    exact challenge_of_refused hrefused hle id' challenges'

theorem answers_each_batch_once_after_mismatch :
    ∃ (events : List Event) (t : KeyHolder) (e : TrusteeError) (response : ChallengeResponses),
      History (.new ⟨"guardian-1", 1, genPow .one⟩ .one 60) events t ∧
        events[1]? = some (.challenged 1 ⟨1⟩ [] (.error e)) ∧
          events[2]? = some (.challenged 2 ⟨1⟩ [.zero] (.ok response)) := by
  have hpads : [genPow .one] ≠ [] := List.cons_ne_nil _ _
  have hsome : ((KeyHolder.new ⟨"guardian-1", 1, genPow .one⟩ .one 60).decrypt 0 [⟨1⟩] .one
      [genPow .one]).isSome = true := by
    rw [decrypt_isSome .one hpads]
    rfl
  obtain ⟨⟨answer, u⟩, hdecrypt⟩ := Option.isSome_iff_exists.1 hsome
  have hid : answer.batchId = ⟨1⟩ := by
    have hissue := Tickets.issue_eq_some.1 (decrypt_eq_some hpads hdecrypt).2.2
    exact List.mem_singleton.1 (List.mem_of_find?_eq_some hissue.1)
  have hopened := History.snoc .nil (by simp) (.decrypt hdecrypt)
  have hshort := hopened.snoc (by simp [Event.time]) (.challenge u 1 ⟨1⟩ [])
  have hlong := hshort.snoc (by simp [Event.time]) (.challenge _ 2 ⟨1⟩ [.zero])
  obtain ⟨-, hanswered, -, -⟩ := answers_each_batch_once hlong
  have hrefused : ∀ response, (u.challenge 1 ⟨1⟩ []).1 ≠ .ok response := by
    intro response hok
    obtain ⟨opening, batch, hpending, -, -, hsize⟩ :=
      (hanswered 1 1 ⟨1⟩ [] (u.challenge 1 ⟨1⟩ []).1 rfl).1 ⟨response, hok⟩
    exact hpending.2.1 (List.length_eq_zero_iff.1 hsize)
  have hpending : Pending (([] ++ [.opened ⟨0, .one, [genPow .one], answer⟩]) ++
      [.challenged 1 ⟨1⟩ [] (u.challenge 1 ⟨1⟩ []).1]) 0 ⟨0, .one, [genPow .one], answer⟩ := by
    refine pending_snoc.2 (Or.inr ⟨pending_snoc.2 (Or.inl ⟨rfl, rfl, hpads⟩), ?_⟩)
    intro now challenges response heq
    rw [Event.challenged.injEq] at heq
    exact hrefused response heq.2.2.2
  obtain ⟨response, hresponse⟩ := (hanswered 2 2 ⟨1⟩ [.zero] _ rfl).2
    ⟨0, _, hpending, hid, by change 2 - 0 < 60; decide, rfl⟩
  cases hfirst : (u.challenge 1 ⟨1⟩ []).1 with
  | ok response => exact absurd hfirst (hrefused response)
  | error e =>
    refine ⟨_, _, e, response, hlong, ?_, ?_⟩
    · rw [← hfirst]
      rfl
    · rw [← hresponse]
      rfl

end ThresholdElGamal.KeyHolder
