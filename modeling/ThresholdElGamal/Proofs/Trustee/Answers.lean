import ThresholdElGamal.Proof.ChaumPedersen
import ThresholdElGamal.Proofs.Group.Powers
import ThresholdElGamal.Proofs.Trustee.Tickets
import ThresholdElGamal.Trustee.KeyHolder

/-! # What key holders answer

A ticket that was issued is live as long as it is fresh, so a key holder answers the challenge of
round two with the nonces that it committed to in round one. Its answers fit its
commitments for every pad in the subgroup.
-/

namespace ThresholdElGamal

namespace Tickets

variable {s : Tickets} {now size : ℕ} {candidates : List BatchId} {seed : Exponent}

theorem issue_isSome : (s.issue now candidates seed size).isSome =
    candidates.any (s.sweep now).isFree := by
  rw [issue, Option.isSome_map, Bool.eq_iff_iff, List.find?_isSome, List.any_eq_true]

end Tickets

namespace KeyHolder

variable {t u : KeyHolder}

/-- The same key holder at another time. -/
structure Continues (t u : KeyHolder) : Prop where
  profile : t.profile = u.profile
  keyShare : t.keyShare = u.keyShare
  ttl : t.tickets.ttl = u.tickets.ttl

theorem Continues.refl (t : KeyHolder) : t.Continues t := ⟨rfl, rfl, rfl⟩

theorem Continues.trans {v : KeyHolder} (h : t.Continues u) (h' : u.Continues v) :
    t.Continues v :=
  ⟨h.profile.trans h'.profile, h.keyShare.trans h'.keyShare, h.ttl.trans h'.ttl⟩

theorem continues_decrypt {now : ℕ} {candidates : List BatchId} {seed : Exponent}
    {pads : List Element} {answer : PartialDecryptions}
    (h : t.decrypt now candidates seed pads = some (answer, u)) : u.Continues t := by
  simp only [decrypt] at h
  split at h
  · cases h
    exact ⟨rfl, rfl, rfl⟩
  · simp only [Tickets.issue, Option.map_map, Option.map_eq_some_iff, Function.comp_apply,
      Prod.mk.injEq] at h
    obtain ⟨id, -, -, rfl⟩ := h
    exact ⟨rfl, rfl, rfl⟩

theorem continues_challenge (now : ℕ) (id : BatchId) (cs : List Exponent) :
    (t.challenge now id cs).2.Continues t := ⟨rfl, rfl, Tickets.ttl_redeem⟩

theorem continues_expire (now : ℕ) : (t.expire now).2.Continues t := ⟨rfl, rfl, rfl⟩

variable {now later : ℕ} {candidates : List BatchId} {seed : Exponent} {pads : List Element}
  {answer : PartialDecryptions} {challenges : List Exponent}

theorem decrypt_isSome (seed : Exponent) (hpads : pads ≠ []) :
    (t.decrypt now candidates seed pads).isSome =
      candidates.any (t.tickets.sweep now).isFree := by
  rw [decrypt, if_neg (by simpa using hpads), Option.isSome_map, Tickets.issue_isSome]

theorem decrypt_eq_some (hpads : pads ≠ [])
    (h : t.decrypt now candidates seed pads = some (answer, u)) :
    answer.partials = pads.zipIdx.map (fun (pad, i) =>
        .ofShare t.keyShare ((t.nonces seed).atPosition i) pad) ∧
      answer.invalidPads = invalidPads pads ∧
        t.tickets.issue now candidates seed pads.length = some (answer.batchId, u.tickets) := by
  rw [decrypt, if_neg (by simpa using hpads), Option.map_eq_some_iff] at h
  obtain ⟨⟨id, tickets⟩, hissue, hanswer⟩ := h
  simp only [Prod.mk.injEq] at hanswer
  obtain ⟨rfl, rfl⟩ := hanswer
  exact ⟨rfl, rfl, hissue⟩

/-- The contributions to a batch under the nonces of a seed. -/
def partials (t : KeyHolder) (seed : Exponent) (pads : List Element) : List PartialDecryption :=
  pads.zipIdx.map fun (pad, i) => .ofShare t.keyShare ((t.nonces seed).atPosition i) pad

/-- The responses to a batch under the nonces of a seed. -/
def responses (t : KeyHolder) (seed : Exponent) (challenges : List Exponent) : List Exponent :=
  challenges.zipIdx.map fun (c, i) => t.keyShare.respond ((t.nonces seed).atPosition i) c

@[simp]
theorem length_responses : (t.responses seed challenges).length = challenges.length := by
  simp [responses]

theorem getElem?_partials {i : ℕ} {pad : Element} (h : pads[i]? = some pad) :
    (t.partials seed pads)[i]? =
      some (.ofShare t.keyShare ((t.nonces seed).atPosition i) pad) := by
  simp [partials, h]

theorem getElem?_responses {i : ℕ} {c : Exponent} (h : challenges[i]? = some c) :
    (t.responses seed challenges)[i]? =
      some (t.keyShare.respond ((t.nonces seed).atPosition i) c) := by
  simp [responses, h]

theorem Continues.partials_eq (h : t.Continues u) (seed : Exponent) (pads : List Element) :
    t.partials seed pads = u.partials seed pads := by
  rw [partials, partials, nonces, nonces, h.profile, h.keyShare]

theorem Continues.responses_eq (h : t.Continues u) (seed : Exponent)
    (challenges : List Exponent) : t.responses seed challenges = u.responses seed challenges := by
  rw [responses, responses, nonces, nonces, h.profile, h.keyShare]

theorem challenge_eq (t : KeyHolder) (now : ℕ) (id : BatchId) (challenges : List Exponent) :
    (t.challenge now id challenges).1 = (t.tickets.redeem now id challenges.length).1.map
      fun seed => ⟨id, t.responses seed challenges⟩ := rfl

theorem challenge_eq_ok {id : BatchId} {response : ChallengeResponses} :
    (t.challenge now id challenges).1 = .ok response ↔
      ∃ ticket, t.tickets.live now id = some ticket ∧ ticket.size = challenges.length ∧
        response = ⟨id, t.responses ticket.seed challenges⟩ := by
  have hmap : (t.challenge now id challenges).1 = .ok response ↔
      ∃ seed, (t.tickets.redeem now id challenges.length).1 = .ok seed ∧
        response = ⟨id, t.responses seed challenges⟩ := by
    rw [challenge_eq]
    cases (t.tickets.redeem now id challenges.length).1 <;> simp [Except.map, eq_comm]
  rw [hmap]
  constructor
  · rintro ⟨seed, hseed, rfl⟩
    obtain ⟨ticket, hlive, hsize, rfl⟩ := Tickets.redeem_eq_ok.1 hseed
    exact ⟨ticket, hlive, hsize, rfl⟩
  · rintro ⟨ticket, hlive, hsize, rfl⟩
    exact ⟨ticket.seed, Tickets.redeem_eq_ok.2 ⟨ticket, hlive, hsize, rfl⟩, rfl⟩

theorem challenge_of_live {id : BatchId} {ticket : Ticket}
    (h : t.tickets.live now id = some ticket) (hsize : ticket.size = challenges.length) :
    (t.challenge now id challenges).1 = .ok ⟨id, t.responses ticket.seed challenges⟩ :=
  challenge_eq_ok.2 ⟨ticket, h, hsize, rfl⟩

/-- A batch that was opened is answered as long as its ticket is fresh, under the seed that it was
opened with. -/
theorem challenge_opened_eq_ok (hpads : pads ≠ [])
    (h : t.decrypt now candidates seed pads = some (answer, u)) {response : ChallengeResponses} :
    (u.challenge later answer.batchId challenges).1 = .ok response ↔
      later - now < t.tickets.ttl ∧ pads.length = challenges.length ∧
        response = ⟨answer.batchId, t.responses seed challenges⟩ := by
  obtain ⟨-, -, hissue⟩ := decrypt_eq_some hpads h
  rw [challenge_eq_ok, Tickets.live_issue_id hissue, ← (continues_decrypt h).responses_eq seed]
  simp only [Option.ite_none_right_eq_some, Option.some_inj, and_assoc]
  constructor
  · rintro ⟨ticket, hfresh, rfl, hlength, hresponse⟩
    exact ⟨hfresh, hlength, hresponse⟩
  · rintro ⟨hfresh, hlength, hresponse⟩
    exact ⟨_, hfresh, rfl, hlength, hresponse⟩

theorem challenge_of_decrypt (hpads : pads ≠ [])
    (h : t.decrypt now candidates seed pads = some (answer, u))
    (hfresh : later - now < t.tickets.ttl) (hlength : challenges.length = pads.length) :
    (u.challenge later answer.batchId challenges).1 =
      .ok ⟨answer.batchId, challenges.zipIdx.map fun (c, i) =>
        t.keyShare.respond ((t.nonces seed).atPosition i) c⟩ :=
  (challenge_opened_eq_ok hpads h).2 ⟨hfresh, hlength.symm, rfl⟩

theorem fresh_of_challenge (hpads : pads ≠ [])
    (h : t.decrypt now candidates seed pads = some (answer, u)) {response : ChallengeResponses}
    (hresponse : (u.challenge later answer.batchId challenges).1 = .ok response) :
    later - now < t.tickets.ttl :=
  ((challenge_opened_eq_ok hpads h).1 hresponse).1

end KeyHolder

section Respond

variable (share nonce c : Exponent)

/-- The subtraction that a response takes is always defined. -/
theorem sub?_mul : nonce.sub? (c * share) = some (share.respond nonce c) := by
  have hlt : (c * share).val < order := Exponent.mod_order_lt _
  exact if_pos (by omega)

theorem respond_lt : (share.respond nonce c).val < order := Exponent.mod_order_lt _

theorem residue_respond_add : (share.respond nonce c + share * c).residue = nonce.residue := by
  simp only [Exponent.respond, Exponent.residue_add, Exponent.residue_mul, Exponent.residue_sub_mul]
  ring

theorem genPow_respond : genPow (share.respond nonce c) * genPow share ^ c = genPow nonce := by
  rw [genPow_pow, genPow_mul_genPow, genPow_congr (residue_respond_add share nonce c)]

theorem pow_respond {pad : Element} (hpad : pad.IsTorsion) :
    pad ^ share.respond nonce c * (pad ^ share) ^ c = pad ^ nonce := by
  rw [hpad.pow_pow, hpad.pow_mul_pow, hpad.pow_congr (residue_respond_add share nonce c)]

theorem accepts_respond {pad : Element} (hpad : pad.IsTorsion) :
    (ChaumPedersenProof.mk c (share.respond nonce c)).accepts (genPow share) pad
      (PartialDecryption.ofShare share nonce pad).mi (PartialDecryption.ofShare share nonce pad).a
        (PartialDecryption.ofShare share nonce pad).b = true := by
  simp only [ChaumPedersenProof.accepts, ChaumPedersenProof.commitments, decide_eq_true_eq,
    Prod.mk.injEq, PartialDecryption.ofShare]
  exact ⟨genPow_respond share nonce c, pow_respond share nonce c hpad⟩

end Respond

end ThresholdElGamal
