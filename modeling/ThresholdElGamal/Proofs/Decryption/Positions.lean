import ThresholdElGamal.Proofs.Decryption.Records

/-! # Sessions that read by position

The lists of a session are kept under the positions of trustees, of the slots that the responders
take, and of ciphertexts. A session that looks everything up by these positions, where `none` is a
read out of range or a difference that is not there, reads only what is there and finds what
belongs together: it makes the calls of the session that keeps every answer with its trustee, and
ends like it.
-/

namespace ThresholdElGamal.Session

/-- A complete answer of round one, under the position of its trustee. -/
structure Seat where
  position : ℕ
  answer : PartialDecryptions

def seat? (n position : ℕ) : Reply PartialDecryptions → Option Seat
  | .answered a => if a.partials.length = n then some ⟨position, a⟩ else none
  | _ => none

def seats (n : ℕ) (replies : List (Reply PartialDecryptions)) : List Seat :=
  replies.zipIdx.filterMap fun x => seat? n x.2 x.1

def Seat.responder? (d : Decryptor) (seat : Seat) : Option Responder :=
  d.trustees[seat.position]?.map (⟨·, seat.answer⟩)

/-- What round one leaves behind: seats by slot, the weights beside them. -/
structure Bench where
  seats : List Seat
  weights : List LagrangeCoordinate
  flagged : Flags

/-- The weight of a coordinate, if it can be subtracted from the others. -/
def weight? (x : UInt32) (present : List UInt32) : Option Exponent := do
  let c := Exponent.ofNat x.toNat
  let others := (present.filter (· != x)).map fun j => Exponent.ofNat j.toNat
  let differences ← others.mapM fun j => j.sub? c
  return Exponent.prod others / Exponent.prod differences

def weightsOf? (present : List TrusteeProfile) : Option (List LagrangeCoordinate) :=
  present.mapM fun t => do
    let coefficient ← weight? t.xCoordinate (present.map (·.xCoordinate))
    return ⟨t.id, t.xCoordinate, coefficient⟩

def seatWeights? (d : Decryptor) (replies : List (Reply PartialDecryptions))
    (seats : List Seat) : Option (List LagrangeCoordinate) :=
  if replies.any Reply.isSilent then do
    let present ← seats.mapM fun seat => d.trustees[seat.position]?
    weightsOf? present
  else seats.mapM fun seat => d.fullWeights[seat.position]?

def assemble? (d : Decryptor) (n : ℕ) (replies : List (Reply PartialDecryptions)) :
    Option (Except (List Problem) Bench) := do
  let faults ← (List.range replies.length).mapM fun t => do
    let trustee ← d.trustees[t]?
    let reply ← replies[t]?
    return (openingFaults n trustee reply).map (Problem.trustee trustee.id)
  let responders ← (seats n replies).mapM (Seat.responder? d)
  let weights ← seatWeights? d replies (seats n replies)
  let problems := faults.flatten ++
    problemUnless (d.context.quorum.toNat ≤ (seats n replies).length)
      (.belowQuorum (seats n replies).length d.context.quorum)
  return unlessProblems problems
    ⟨seats n replies, weights, responders.foldl Responder.addFlags .empty⟩

namespace Bench

def responderAt? (d : Decryptor) (b : Bench) (slot : ℕ) : Option Responder := do
  let seat ← b.seats[slot]?
  seat.responder? d

def combineAt? (b : Bench) (context : ElectionContext) (texts : List Cipher) (i : ℕ) :
    Option Combined := do
  let column ← b.seats.mapM fun seat => seat.answer.partials[i]?
  let text ← texts[i]?
  let mask := Element.prod ((column.zip b.weights).map fun (c, w) => c.mi ^ w.coefficient)
  let a := Element.prod (column.map (·.a))
  let b := Element.prod (column.map (·.b))
  return ⟨mask, text.collectiveChallenge context.extendedBaseHash context.jointPublicKey a b mask⟩

def combine? (b : Bench) (context : ElectionContext) (texts : List Cipher) :
    Option (List Combined) :=
  (List.range texts.length).mapM (b.combineAt? context texts)

def challenges (b : Bench) (combined : List Combined) : List (List Exponent) :=
  b.weights.map fun w => combined.map fun c => c.challenge * w.coefficient

/-- The calls of round two, each with the batch id and the challenges at its slot. -/
def calls? {m : Type → Type} (d : Decryptor) (b : Bench) (transport : Transport m)
    (combined : List Combined) : Option (List (m (Reply ChallengeResponses))) :=
  (List.range b.seats.length).mapM fun slot => do
    let r ← b.responderAt? d slot
    let challenges ← (b.challenges combined)[slot]?
    return transport.challenge r.trustee r.answer.batchId challenges

def collect? (d : Decryptor) (b : Bench) (n : ℕ) (replies : List (Reply ChallengeResponses)) :
    Option (Except (List Problem) (List (List Exponent))) := do
  let faults ← (List.range replies.length).mapM fun slot => do
    let r ← b.responderAt? d slot
    let reply ← replies[slot]?
    return (closingFaults n r reply).map (Problem.trustee r.trustee.id)
  return unlessProblems faults.flatten (replies.filterMap responses?)

/-- Nothing is read at a flagged position. -/
def badPositions? (b : Bench) (texts : List Cipher) (shareKey : Element)
    (partials : List PartialDecryption) (challenges responses : List Exponent) :
    Option (List ℕ) := do
  let bad ← (List.range texts.length).mapM fun i =>
    if b.flagged.contains i then some none
    else do
      let text ← texts[i]?
      let c ← partials[i]?
      let challenge ← challenges[i]?
      let response ← responses[i]?
      let proof : ChaumPedersenProof := ⟨challenge, response⟩
      return if proof.accepts shareKey text.pad c.mi c.a c.b then none else some i
  return bad.filterMap id

def individualFaults? (roster : Roster) (b : Bench) (texts : List Cipher) (r : Responder)
    (challenges responses : List Exponent) : Option (List Fault) :=
  match roster.shareKey? r.trustee.id with
  | none => some [.noCommitments]
  | some shareKey => do
    let bad ← b.badPositions? texts shareKey r.answer.partials challenges responses
    return bad.map .badResponse

def individualProblems? (d : Decryptor) (b : Bench) (texts : List Cipher)
    (challenges responses : List (List Exponent)) : Option (List Problem) := do
  let faults ← (List.range b.seats.length).mapM fun slot => do
    let r ← b.responderAt? d slot
    let cs ← challenges[slot]?
    let vs ← responses[slot]?
    let faults ← b.individualFaults? d.roster texts r cs vs
    return faults.map (Problem.trustee r.trustee.id)
  return faults.flatten

def item? (b : Bench) (responses : List (List Exponent)) (combined : Combined) (i : ℕ) :
    Option (Option Decryption) :=
  if b.flagged.contains i then some none
  else do
    let column ← responses.mapM fun vs => vs[i]?
    return some ⟨combined.mask, ⟨combined.challenge, Exponent.sum column⟩⟩

def publish? (d : Decryptor) (b : Bench) (combined : List Combined)
    (responses : List (List Exponent)) : Option Decryptions := do
  let items ← (List.range combined.length).mapM fun i => do
    let c ← combined[i]?
    b.item? responses c i
  let responders ← b.seats.mapM (Seat.responder? d)
  return ⟨items, b.flagged, responders.map (·.trustee.id)⟩

def conclude? (d : Decryptor) (b : Bench) (texts : List Cipher) (combined : List Combined)
    (replies : List (Reply ChallengeResponses)) : Option (Except (List Problem) Decryptions) := do
  match ← b.collect? d texts.length replies with
  | .error problems => return .error problems
  | .ok responses =>
    let problems ←
      if d.config.checkIndividualResponses then
        b.individualProblems? d texts (b.challenges combined) responses
      else some []
    let record ← b.publish? d combined responses
    return unlessProblems problems record

end Bench

/-- Runs a session that looks everything up by position. The outcome `none` is a read out of
range, or a difference that is not there. -/
def run? {m : Type → Type} [Monad m] (d : Decryptor) (transport : Transport m)
    (texts : List Cipher) : m (Option (Except (List Problem) Decryptions)) := do
  if texts.isEmpty then return some (.ok {})
  let opening ← askOpening d transport texts
  match assemble? d texts.length opening with
  | none => return none
  | some (.error problems) => return some (.error problems)
  | some (.ok b) =>
    match b.combine? d.context texts with
    | none => return none
    | some combined =>
      match b.calls? d transport combined with
      | none => return none
      | some calls =>
        let closing ← calls.mapM id
        return b.conclude? d texts combined closing

variable {d : Decryptor} {n : ℕ} {p : Panel} {b : Bench} {texts : List Cipher}
  {responses : List (List Exponent)}

/-- Every seat is that of a responder, in the same order. -/
structure Bench.Matches (d : Decryptor) (b : Bench) (p : Panel) : Prop where
  seats : List.Forall₂ (fun seat r => seat.responder? d = some r) b.seats p.responders
  weights : b.weights = p.weights
  flagged : b.flagged = p.flagged

theorem Seat.responder?_eq_some {seat : Seat} {r : Responder} :
    seat.responder? d = some r ↔
      d.trustees[seat.position]? = some r.trustee ∧ seat.answer = r.answer := by
  obtain ⟨t, answer⟩ := r
  simp only [responder?, Option.map_eq_some_iff, Responder.mk.injEq]
  constructor
  · rintro ⟨t, ht, rfl, rfl⟩
    exact ⟨ht, rfl⟩
  · rintro ⟨ht, rfl⟩
    exact ⟨t, ht, rfl, rfl⟩

section Opening

variable {replies : List (Reply PartialDecryptions)}

theorem forall₂_zipIdx (hlength : replies.length = d.trustees.length) :
    List.Forall₂ (fun x tr => d.trustees[x.2]? = some tr.1 ∧ x.1 = tr.2) replies.zipIdx
      (d.trustees.zip replies) := by
  rw [List.forall₂_iff_get]
  simp [hlength]

theorem forall₂_seats (hlength : replies.length = d.trustees.length) :
    List.Forall₂ (fun seat r => seat.responder? d = some r) (seats n replies)
      (respondersOf n d.trustees replies) := by
  refine List.rel_filterMap ?_ (forall₂_zipIdx hlength)
  rintro ⟨reply, t⟩ ⟨trustee, _⟩ ⟨htrustee, rfl⟩
  cases reply with
  | answered a =>
    simp only [seat?, responder?]
    split
    · exact .some (Seat.responder?_eq_some.2 ⟨htrustee, rfl⟩)
    · exact .none
  | silent => exact .none
  | crashed => exact .none
  | refused e => exact .none

theorem mapM_responder? (hlength : replies.length = d.trustees.length) :
    (seats n replies).mapM (Seat.responder? d) = some (respondersOf n d.trustees replies) := by
  rw [mapM_of_forall₂ (g := id) (forall₂_seats hlength) fun _ _ _ h => h, List.map_id]

theorem mapM_trustees (hlength : replies.length = d.trustees.length) :
    (seats n replies).mapM (fun seat => d.trustees[seat.position]?) =
      some ((respondersOf n d.trustees replies).map (·.trustee)) :=
  mapM_of_forall₂ (forall₂_seats hlength) fun _ _ _ h => (Seat.responder?_eq_some.1 h).1

def weightAmong (present : List TrusteeProfile) (t : TrusteeProfile) : LagrangeCoordinate :=
  ⟨t.id, t.xCoordinate, lagrangeWeight t.xCoordinate (present.map (·.xCoordinate))⟩

theorem weightsOf_eq (present : List TrusteeProfile) :
    Decryptor.weightsOf present = present.map (weightAmong present) := by
  simp [Decryptor.weightsOf, lagrangeCoordinates, weightAmong, Function.comp_def]

theorem weight?_eq (x : UInt32) (present : List UInt32) :
    weight? x present = some (lagrangeWeight x present) := by
  have hc : (Exponent.ofNat x.toNat).val < order := Exponent.mod_order_lt _
  have hdifferences : ∀ others : List Exponent,
      others.mapM (fun j => j.sub? (.ofNat x.toNat)) =
        some (others.map fun j => j - .ofNat x.toNat) := fun others =>
    mapM_eq_some fun j _ => if_pos (by omega)
  simp only [weight?, hdifferences]
  rfl

theorem weightsOf?_eq (present : List TrusteeProfile) :
    weightsOf? present = some (Decryptor.weightsOf present) := by
  rw [weightsOf_eq]
  exact mapM_eq_some fun t _ => by simp [weight?_eq, weightAmong]

theorem mapM_fullWeights (hlength : replies.length = d.trustees.length) :
    (seats n replies).mapM (fun seat => d.fullWeights[seat.position]?) =
      some ((respondersOf n d.trustees replies).map fun r => weightAmong d.trustees r.trustee) := by
  refine mapM_of_forall₂ (forall₂_seats hlength) fun seat r _ h => ?_
  rw [Decryptor.fullWeights, weightsOf_eq, List.getElem?_map, (Seat.responder?_eq_some.1 h).1,
    Option.map_some]

theorem seatWeights?_eq (hlength : replies.length = d.trustees.length) :
    ∃ weights, seatWeights? d replies (seats n replies) = some weights ∧
      ∀ p, assemble d n replies = .ok p → weights = p.weights := by
  unfold seatWeights?
  cases hsilent : replies.any Reply.isSilent with
  | true =>
    refine ⟨Decryptor.weightsOf ((respondersOf n d.trustees replies).map (·.trustee)), ?_,
      fun p hp => ?_⟩
    · rw [if_pos rfl, mapM_trustees hlength]
      exact weightsOf?_eq _
    · obtain ⟨-, -, rfl⟩ := assemble_eq_ok.1 hp
      exact (if_pos hsilent).symm
  | false =>
    refine ⟨_, (if_neg Bool.false_ne_true).trans (mapM_fullWeights hlength), fun p hp => ?_⟩
    obtain ⟨hfaults, -, rfl⟩ := assemble_eq_ok.1 hp
    have hfull := congrArg (List.map (weightAmong d.trustees))
      (respondersOf_full hlength hfaults hsilent)
    rw [List.map_map, ← weightsOf_eq] at hfull
    rw [hsilent, if_neg Bool.false_ne_true, Decryptor.fullWeights]
    exact hfull

theorem assemble?_eq (hlength : replies.length = d.trustees.length) :
    ∃ weights, assemble? d n replies =
        some ((assemble d n replies).map fun p => ⟨seats n replies, weights, p.flagged⟩) ∧
      ∀ p, assemble d n replies = .ok p → weights = p.weights := by
  obtain ⟨weights, hweights, heq⟩ := seatWeights?_eq (n := n) hlength
  refine ⟨weights, ?_, heq⟩
  have hfaults : (List.range replies.length).mapM (fun t => do
      let trustee ← d.trustees[t]?
      let reply ← replies[t]?
      return (openingFaults n trustee reply).map (Problem.trustee trustee.id)) =
      some ((d.trustees.zip replies).map fun tr =>
        (openingFaults n tr.1 tr.2).map (Problem.trustee tr.1.id)) := by
    refine mapM_range (by simp [hlength]) fun t tr htr => ?_
    obtain ⟨htrustee, hreply⟩ := List.getElem?_zip_eq_some.1 htr
    simp [htrustee, hreply]
  have hcount : (seats n replies).length = (respondersOf n d.trustees replies).length :=
    (forall₂_seats hlength).length_eq
  simp only [assemble?, hfaults, mapM_responder? hlength, hweights, hcount, assemble,
    map_unlessProblems]
  rfl

theorem matches_of_assemble (hlength : replies.length = d.trustees.length)
    (hassemble : assemble d n replies = .ok p) :
    ∃ b, assemble? d n replies = some (.ok b) ∧ b.Matches d p := by
  obtain ⟨weights, hassemble?, hweights⟩ := assemble?_eq (n := n) hlength
  rw [hassemble] at hassemble?
  refine ⟨_, hassemble?, ?_, hweights p hassemble, rfl⟩
  obtain ⟨-, -, rfl⟩ := assemble_eq_ok.1 hassemble
  exact forall₂_seats hlength

theorem assemble?_of_error {problems : List Problem}
    (hlength : replies.length = d.trustees.length)
    (hassemble : assemble d n replies = .error problems) :
    assemble? d n replies = some (.error problems) := by
  obtain ⟨weights, hassemble?, -⟩ := assemble?_eq (n := n) hlength
  rwa [hassemble] at hassemble?

end Opening

section Closing

variable (hb : b.Matches d p)
include hb

theorem responderAt?_eq (slot : ℕ) : b.responderAt? d slot = p.responders[slot]? := by
  obtain ⟨hlength, hseats⟩ := List.forall₂_iff_get.1 hb.seats
  unfold Bench.responderAt?
  by_cases hslot : slot < b.seats.length
  · have hr := hseats slot hslot (hlength ▸ hslot)
    simp only [List.get_eq_getElem] at hr
    rw [List.getElem?_eq_getElem hslot, List.getElem?_eq_getElem (hlength ▸ hslot), ← hr]
    rfl
  · rw [List.getElem?_eq_none (by omega), List.getElem?_eq_none (by omega)]
    rfl

theorem mapM_responder?_of_matches : b.seats.mapM (Seat.responder? d) = some p.responders := by
  rw [mapM_of_forall₂ (g := id) hb.seats fun _ _ _ h => h, List.map_id]

section Formed

variable (hformed : p.Formed d texts.length)
include hformed

theorem combineAt?_eq {i : ℕ} {text : Cipher} (context : ElectionContext)
    (htext : texts[i]? = some text) :
    b.combineAt? context texts i = some (p.combineAt context text i) := by
  have hi : i < texts.length := (List.getElem?_eq_some_iff.1 htext).1
  have hcolumn : b.seats.mapM (fun seat => seat.answer.partials[i]?) = some (p.column i) := by
    rw [hformed.column_eq hi]
    refine mapM_of_forall₂ hb.seats fun seat r hr h => ?_
    rw [(Seat.responder?_eq_some.1 h).2]
    exact getElem?_getD _ (by rw [hformed.partials r hr]; exact hi)
  simp only [Bench.combineAt?, hcolumn, htext, hb.weights]
  rfl

theorem combine?_eq (context : ElectionContext) :
    b.combine? context texts = some (p.combine context texts) := by
  refine mapM_range (List.length_zipIdx) fun i x hx => ?_
  rw [List.getElem?_zipIdx, Option.map_eq_some_iff] at hx
  obtain ⟨text, htext, rfl⟩ := hx
  rw [Nat.zero_add]
  exact combineAt?_eq hb hformed context htext

theorem calls?_eq {m : Type → Type} (transport : Transport m) (combined : List Combined) :
    b.calls? d transport combined =
      some ((p.responders.zip (p.challenges combined)).map fun rc =>
        transport.challenge rc.1.trustee rc.1.answer.batchId rc.2) := by
  have hlength : (p.responders.zip (p.challenges combined)).length = b.seats.length := by
    rw [zip_challenges hformed, List.length_map]
    exact hb.seats.length_eq.symm
  refine mapM_range hlength fun slot rc hrc => ?_
  obtain ⟨hr, hc⟩ := List.getElem?_zip_eq_some.1 hrc
  have hchallenges : (b.challenges combined)[slot]? = some rc.2 := by
    rwa [Bench.challenges, hb.weights]
  rw [responderAt?_eq hb, hr, hchallenges]
  rfl

end Formed

theorem badPositions?_eq {shareKey : Element} {partials : List PartialDecryption}
    {challenges vs : List Exponent} (hpartials : partials.length = texts.length)
    (hchallenges : challenges.length = texts.length) (hvs : vs.length = texts.length) :
    b.badPositions? texts shareKey partials challenges vs =
      some (badPositions p.flagged texts shareKey partials challenges vs) := by
  have hreads : (List.range texts.length).mapM (fun i =>
      if b.flagged.contains i then some none
      else do
        let text ← texts[i]?
        let c ← partials[i]?
        let challenge ← challenges[i]?
        let response ← vs[i]?
        let proof : ChaumPedersenProof := ⟨challenge, response⟩
        return if proof.accepts shareKey text.pad c.mi c.a c.b then none else some i) =
      some ((texts.zip (partials.zip (challenges.zip vs))).zipIdx.map fun x =>
        if p.flagged.contains x.2 || (ChaumPedersenProof.mk x.1.2.2.1 x.1.2.2.2).accepts shareKey
          x.1.1.pad x.1.2.1.mi x.1.2.1.a x.1.2.1.b then none else some x.2) := by
    refine mapM_range (by simp [hpartials, hchallenges, hvs]) fun i x hx => ?_
    simp only [List.getElem?_zipIdx, Option.map_eq_some_iff, List.getElem?_zip_eq_some,
      Nat.zero_add] at hx
    obtain ⟨y, ⟨htext, hc, hchallenge, hresponse⟩, rfl⟩ := hx
    rw [hb.flagged]
    cases p.flagged.contains i with
    | true => rfl
    | false => simp [htext, hc, hchallenge, hresponse]
  simp only [Bench.badPositions?, hreads]
  refine congrArg some ?_
  rw [List.filterMap_map, Function.id_comp]
  rfl

theorem individualFaults?_eq {roster : Roster} {r : Responder} {challenges vs : List Exponent}
    (hpartials : r.answer.partials.length = texts.length)
    (hchallenges : challenges.length = texts.length) (hvs : vs.length = texts.length) :
    b.individualFaults? roster texts r challenges vs =
      some (individualFaults roster p.flagged texts r challenges vs) := by
  unfold Bench.individualFaults? individualFaults
  cases roster.shareKey? r.trustee.id with
  | none => rfl
  | some shareKey =>
    simp only [badPositions?_eq hb hpartials hchallenges hvs]
    rfl

section Answered

variable {combined : List Combined} (hrows : ∀ vs ∈ responses, vs.length = texts.length)
include hrows

theorem individualProblems?_eq (hformed : p.Formed d texts.length)
    (hcombined : combined.length = texts.length)
    (hcount : responses.length = p.responders.length) :
    b.individualProblems? d texts (b.challenges combined) responses =
      some (individualProblems d.roster p texts (p.challenges combined) responses) := by
  have hfaults : (List.range b.seats.length).mapM (fun slot => do
      let r ← b.responderAt? d slot
      let cs ← (b.challenges combined)[slot]?
      let vs ← responses[slot]?
      let faults ← b.individualFaults? d.roster texts r cs vs
      return faults.map (Problem.trustee r.trustee.id)) =
      some ((p.responders.zip ((p.challenges combined).zip responses)).map fun x =>
        (individualFaults d.roster p.flagged texts x.1 x.2.1 x.2.2).map
          (Problem.trustee x.1.trustee.id)) := by
    have hseats := hb.seats.length_eq
    have hchallenges := congrArg List.length (challenges_eq hformed combined)
    rw [List.length_map] at hchallenges
    refine mapM_range (by simp [hseats, hchallenges, hcount]) fun slot x hx => ?_
    simp only [List.getElem?_zip_eq_some] at hx
    obtain ⟨hr, hcs, hvs⟩ := hx
    have hreads : (b.challenges combined)[slot]? = some x.2.1 := by
      rwa [Bench.challenges, hb.weights]
    have hlength : x.2.1.length = texts.length := by
      have hmem := List.mem_of_getElem? hcs
      rw [challenges_eq hformed, List.mem_map] at hmem
      obtain ⟨r, -, heq⟩ := hmem
      rw [← heq, List.length_map, hcombined]
    simp only [responderAt?_eq hb, hr, hreads, hvs, Option.bind_eq_bind, Option.bind_some,
      individualFaults?_eq hb (hformed.partials _ (List.mem_of_getElem? hr)) hlength
        (hrows _ (List.mem_of_getElem? hvs))]
    rfl
  simp only [Bench.individualProblems?, hfaults]
  rfl

theorem item?_eq {c : Combined} {i : ℕ} (hi : i < texts.length) :
    b.item? responses c i = some (item p responses c i) := by
  have hcolumn : responses.mapM (fun vs => vs[i]?) =
      some (responses.filterMap fun vs => vs[i]?) := by
    rw [filterMap_getElem? .zero hrows hi]
    exact mapM_eq_some fun vs hvs => getElem?_getD _ (by rw [hrows vs hvs]; exact hi)
  unfold Bench.item? item
  rw [hb.flagged]
  split
  · rfl
  · rw [hcolumn]
    rfl

theorem publish?_eq (hcombined : combined.length = texts.length) :
    b.publish? d combined responses = some (publish p combined responses) := by
  have hitems : (List.range combined.length).mapM (fun i => do
      let c ← combined[i]?
      b.item? responses c i) =
      some (combined.zipIdx.map fun x => item p responses x.1 x.2) := by
    refine mapM_range List.length_zipIdx fun i x hx => ?_
    rw [List.getElem?_zipIdx, Option.map_eq_some_iff] at hx
    obtain ⟨c, hc, rfl⟩ := hx
    have hi : i < texts.length := hcombined ▸ (List.getElem?_eq_some_iff.1 hc).1
    rw [Nat.zero_add, hc]
    exact item?_eq hb hrows hi
  simp only [Bench.publish?, hitems, mapM_responder?_of_matches hb, hb.flagged]
  rfl

end Answered

theorem collect?_eq {replies : List (Reply ChallengeResponses)}
    (hlength : replies.length = p.responders.length) :
    b.collect? d n replies = some (collect p n replies) := by
  have hfaults : (List.range replies.length).mapM (fun slot => do
      let r ← b.responderAt? d slot
      let reply ← replies[slot]?
      return (closingFaults n r reply).map (Problem.trustee r.trustee.id)) =
      some ((p.responders.zip replies).map fun rr =>
        (closingFaults n rr.1 rr.2).map (Problem.trustee rr.1.trustee.id)) := by
    refine mapM_range (by simp [hlength]) fun slot rr hrr => ?_
    obtain ⟨hr, hreply⟩ := List.getElem?_zip_eq_some.1 hrr
    simp [responderAt?_eq hb, hr, hreply]
  simp only [Bench.collect?, hfaults]
  rfl

theorem conclude?_eq {combined : List Combined} {replies : List (Reply ChallengeResponses)}
    (hformed : p.Formed d texts.length) (hcombined : combined.length = texts.length)
    (hlength : replies.length = p.responders.length) :
    b.conclude? d texts combined replies = some (conclude d p texts combined replies) := by
  unfold Bench.conclude? conclude
  rw [collect?_eq hb hlength]
  cases hcollect : collect p texts.length replies with
  | error problems => rfl
  | ok responses =>
    obtain ⟨hcount, hrows⟩ := length_of_collect hlength hcollect
    simp only [Option.bind_eq_bind, Option.bind_some, publish?_eq hb hrows hcombined,
      individualProblems?_eq hb hrows hformed hcombined hcount]
    cases d.config.checkIndividualResponses <;> rfl

end Closing

/-- Nothing is read out of range, and what is read belongs together: the session makes the same
calls and ends in the same way as the one that keeps every answer with its trustee. -/
theorem run?_eq {σ : Type} (d : Decryptor) (transport : Transport (StateM σ)) (metrics : Metrics)
    (texts : List Cipher) (s : σ) :
    (run? d transport texts).run s =
      (some ((run d transport metrics texts).run s).1.1,
        ((run d transport metrics texts).run s).2) := by
  unfold run? run
  cases hempty : texts.isEmpty with
  | true => rfl
  | false =>
    simp only [Bool.false_eq_true, if_false, run_bind]
    have hlength : ((askOpening d transport texts).run s).1.length = d.trustees.length :=
      length_mapM _ _ _
    cases hassemble : assemble d texts.length ((askOpening d transport texts).run s).1 with
    | error problems =>
      rw [assemble?_of_error hlength hassemble]
      rfl
    | ok p =>
      have hformed := formed_of_assemble hlength hassemble
      obtain ⟨b, hassemble?, hb⟩ := matches_of_assemble hlength hassemble
      have hcalls : ((p.responders.zip (p.challenges (p.combine d.context texts))).map fun rc =>
          transport.challenge rc.1.trustee rc.1.answer.batchId rc.2).mapM id =
          askClosing p transport (p.combine d.context texts) := List.mapM_map
      simp only [hassemble?, combine?_eq hb hformed, calls?_eq hb hformed, hcalls, run_bind,
        conclude?_eq hb hformed (p.length_combine d.context texts) (length_askClosing hformed _)]
      rfl

end ThresholdElGamal.Session
