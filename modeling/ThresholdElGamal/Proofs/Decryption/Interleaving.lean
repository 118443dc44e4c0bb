import Mathlib.Logic.Relation
import ThresholdElGamal.Proofs.Decryption.HonestSessions

/-! # Sessions that share their trustees

Any number of sessions call the same key holders. Each session opens its batches before it sends
challenges, and otherwise the single calls come in any order, as long as no ticket expires. Every
key holder keeps a ticket for each session that has opened a batch and not yet closed it, under ids
that differ, beside the tickets that it had: so every challenge is answered with the nonces of its
own session.
-/

namespace ThresholdElGamal

namespace Circumstances

variable {c : Circumstances} {holder : KeyHolder} {pads : List Element}

theorem opening_of_unexpired (hpads : pads ≠ []) (hanswers : c.answers holder = true)
    (hfresh : holder.tickets.Unexpired c.openedAt) :
    ∃ answer, (c.opening holder pads).1 = .answered answer ∧
      holder.tickets.get? answer.batchId = none ∧
        (c.opening holder pads).2.tickets = ⟨holder.tickets.ttl,
          (answer.batchId, ⟨c.seed, pads.length, c.openedAt⟩) :: holder.tickets.entries⟩ := by
  obtain ⟨answer, u, hdecrypt, hopening⟩ := opening_of_answers hpads hanswers
  obtain ⟨-, -, hissue⟩ := KeyHolder.decrypt_eq_some hpads hdecrypt
  have hfree := (Tickets.free_of_issue hissue).2
  have htickets := (Tickets.issue_eq_some.1 hissue).2
  rw [hfresh.sweep_eq] at hfree htickets
  exact ⟨answer, by rw [hopening], hfree, by rw [hopening, htickets]⟩

theorem closing_of_unexpired {id : BatchId} {challenges : List Exponent} {ticket : Ticket}
    (hfresh : holder.tickets.Unexpired c.challengedAt) (h : holder.tickets.get? id = some ticket)
    (hsize : ticket.size = challenges.length) :
    (c.closing holder id challenges).1 =
        .answered ⟨id, holder.responses ticket.seed challenges⟩ ∧
      (c.closing holder id challenges).2.tickets = holder.tickets.erase id := by
  have hanswer := KeyHolder.challenge_of_live ((hfresh.live_eq id).trans h) hsize
  have htickets : (holder.challenge c.challengedAt id challenges).2.tickets =
      holder.tickets.erase id := by
    change (holder.tickets.redeem c.challengedAt id challenges.length).2 = _
    simp only [Tickets.redeem, hfresh.sweep_eq, h, hsize, if_true]
  simp only [closing, hanswer]
  exact ⟨trivial, htickets⟩

theorem answers_of_subset {other : KeyHolder} (hanswers : c.answers holder = true)
    (hfresh : holder.tickets.Unexpired c.openedAt)
    (hsubset : other.tickets.entries ⊆ holder.tickets.entries) : c.answers other = true := by
  simp only [answers, Bool.and_eq_true, List.any_eq_true, hfresh.sweep_eq, Tickets.isFree_iff,
    Tickets.get?_eq_none] at hanswers ⊢
  obtain ⟨hpunctual, id, hid, hnone, hfree⟩ := hanswers
  exact ⟨hpunctual, id, hid, hnone, fun e he => hfree e (hsubset (List.mem_of_mem_filter he))⟩

end Circumstances

open Classical in
/-- What a key holder holds for the sessions that wait for its responses, beside what it held
before. -/
structure KeyHolder.Ledger {ι : Type} (holder start : KeyHolder)
    (waits : ι → PartialDecryptions → Prop) (ticketOf : ι → Ticket) : Prop where
  continues : holder.Continues start
  /-- A session that waits has its ticket, under an id of its own. -/
  held : ∀ k answer, waits k answer → holder.tickets.get? answer.batchId = some (ticketOf k)
  apart : ∀ k k' answer answer', waits k answer → waits k' answer' →
    answer.batchId = answer'.batchId → k = k'
  /-- But for the tickets of the sessions that wait, the tickets are as they were. -/
  others : (holder.tickets.entries.filter fun e => ∀ k answer, waits k answer →
    e.1 ≠ answer.batchId) = start.tickets.entries

namespace KeyHolder.Ledger

variable {ι : Type} {holder holder' start : KeyHolder}
  {waits waits' : ι → PartialDecryptions → Prop} {ticketOf : ι → Ticket} {k : ι}
  {answer : PartialDecryptions}

theorem refl (start : KeyHolder) (hnone : ∀ k answer, ¬ waits k answer) :
    start.Ledger start waits ticketOf where
  continues := .refl start
  held k answer h := absurd h (hnone k answer)
  apart k _ answer _ h := absurd h (hnone k answer)
  others := by simp [hnone]

theorem congr (h : holder.Ledger start waits ticketOf)
    (hwaits : ∀ k answer, waits' k answer ↔ waits k answer) :
    holder.Ledger start waits' ticketOf := by
  obtain rfl : waits' = waits := by
    ext k answer
    exact hwaits k answer
  exact h

variable (h : holder.Ledger start waits ticketOf)
include h

theorem sublist : start.tickets.entries.Sublist holder.tickets.entries := by
  rw [← h.others]
  exact List.filter_sublist

theorem mem_or_waits {held : BatchId × Ticket} (hheld : held ∈ holder.tickets.entries) :
    held ∈ start.tickets.entries ∨ ∃ k answer, waits k answer ∧ held.1 = answer.batchId := by
  by_contra hneither
  simp only [← h.others, List.mem_filter, decide_eq_true_eq, not_or, not_and, not_exists]
    at hneither
  exact hneither.1 hheld hneither.2

theorem tickets_eq (hnone : ∀ k answer, ¬ waits k answer) : holder.tickets = start.tickets := by
  have hentries : holder.tickets.entries = start.tickets.entries := by
    rw [← h.others, List.filter_eq_self.2]
    intro e _
    simp [hnone]
  exact congrArg₂ Tickets.mk h.continues.ttl hentries

/-- A new batch gets an id that no ticket has. -/
theorem opening (hcontinues : holder'.Continues holder)
    (hfree : holder.tickets.get? answer.batchId = none)
    (htickets : holder'.tickets =
      ⟨holder.tickets.ttl, (answer.batchId, ticketOf k) :: holder.tickets.entries⟩)
    (hwaits : ∀ k' answer', waits' k' answer' ↔
      (k' = k ∧ answer' = answer) ∨ waits k' answer') :
    holder'.Ledger start waits' ticketOf := by
  have hunused (k' : ι) (answer' : PartialDecryptions) (hold : waits k' answer') :
      answer'.batchId ≠ answer.batchId := by
    intro hid
    have hticket := h.held k' answer' hold
    rw [hid, hfree] at hticket
    cases hticket
  refine ⟨hcontinues.trans h.continues, ?_, ?_, ?_⟩
  · intro k' answer' hwait
    rw [htickets, Tickets.get?_cons]
    rcases (hwaits k' answer').1 hwait with ⟨rfl, rfl⟩ | hold
    · rw [if_pos rfl]
    · rw [if_neg (hunused k' answer' hold)]
      exact h.held k' answer' hold
  · intro k₁ k₂ answer₁ answer₂ hwait₁ hwait₂ hid
    rcases (hwaits _ _).1 hwait₁ with ⟨rfl, rfl⟩ | hold₁ <;>
      rcases (hwaits _ _).1 hwait₂ with ⟨rfl, rfl⟩ | hold₂
    · rfl
    · exact absurd hid.symm (hunused k₂ answer₂ hold₂)
    · exact absurd hid (hunused k₁ answer₁ hold₁)
    · exact h.apart k₁ k₂ answer₁ answer₂ hold₁ hold₂ hid
  · rw [← h.others, htickets, List.filter_cons_of_neg]
    · apply List.filter_congr
      intro e he
      have hne : e.1 ≠ answer.batchId := Tickets.get?_eq_none.1 hfree e he
      simp only [hwaits, decide_eq_decide]
      constructor
      · exact fun hall k' answer' hold => hall k' answer' (Or.inr hold)
      · rintro hall k' answer' (⟨-, rfl⟩ | hold)
        · exact hne
        · exact hall k' answer' hold
    · simp only [decide_eq_true_eq]
      exact fun hall => hall k answer ((hwaits k answer).2 (Or.inl ⟨rfl, rfl⟩)) rfl

/-- A challenge that is answered takes away the ticket of its own session. -/
theorem closing (hcontinues : holder'.Continues holder) (hwait : waits k answer)
    (honly : ∀ answer', waits k answer' → answer' = answer)
    (htickets : holder'.tickets = holder.tickets.erase answer.batchId)
    (hwaits : ∀ k' answer', waits' k' answer' ↔ waits k' answer' ∧ k' ≠ k) :
    holder'.Ledger start waits' ticketOf := by
  have hsame (k' : ι) (answer' : PartialDecryptions) (hold : waits k' answer') :
      answer'.batchId = answer.batchId ↔ k' = k := by
    constructor
    · exact h.apart k' k answer' answer hold hwait
    · rintro rfl
      rw [honly answer' hold]
  refine ⟨hcontinues.trans h.continues, ?_, ?_, ?_⟩
  · intro k' answer' hwait'
    obtain ⟨hold, hne⟩ := (hwaits k' answer').1 hwait'
    rw [htickets, Tickets.get?_erase, if_neg fun hid => hne ((hsame k' answer' hold).1 hid)]
    exact h.held k' answer' hold
  · intro k₁ k₂ answer₁ answer₂ hwait₁ hwait₂
    exact h.apart k₁ k₂ answer₁ answer₂ ((hwaits _ _).1 hwait₁).1 ((hwaits _ _).1 hwait₂).1
  · rw [← h.others, htickets, Tickets.erase, List.filter_filter]
    apply List.filter_congr
    intro e _
    rw [Bool.eq_iff_iff]
    simp only [Bool.and_eq_true, decide_eq_true_eq, bne_iff_ne, hwaits]
    constructor
    · rintro ⟨hall, hne⟩ k' answer' hold
      by_cases hk : k' = k
      · rwa [(hsame k' answer' hold).2 hk]
      · exact hall k' answer' ⟨hold, hk⟩
    · exact fun hall => ⟨fun k' answer' hold => hall k' answer' hold.1, hall k answer hwait⟩

end KeyHolder.Ledger

open Session

/-- What the sessions are to decrypt, with whom, and what surrounds their calls. -/
structure Plan (ι : Type) where
  decryptor : ι → Decryptor
  texts : ι → List Cipher
  circumstances : ι → String → Circumstances

namespace Plan

/-- The key holders, and the replies that the sessions have got so far from the trustees. -/
structure State (ι : Type) where
  household : Household
  openings : ι × String → Option (Reply PartialDecryptions)
  closings : ι × String → Option (Reply ChallengeResponses)

variable {ι : Type}

def start (s : Household) : State ι := ⟨s, fun _ => none, fun _ => none⟩

/-- The session waits for the responses of a key holder that answered round one. -/
def State.Outstanding (h : State ι) (name : String) (k : ι) (answer : PartialDecryptions) : Prop :=
  h.openings (k, name) = some (.answered answer) ∧ h.closings (k, name) = none

variable (plan : Plan ι) (h : State ι) (k : ι)

def pads : List Element := (plan.texts k).map Cipher.pad

def combined (p : Panel) : List Combined := p.combine (plan.decryptor k).context (plan.texts k)

/-- The panel of a session, or why it has none, once the replies of round one are in. -/
def panel? : Option (Except (List Problem) Panel) :=
  ((plan.decryptor k).trustees.mapM fun t => h.openings (k, t.id)).map
    (assemble (plan.decryptor k) (plan.texts k).length)

/-- How a session ends, once all replies are in. -/
def outcome? : Option (Except (List Problem) Decryptions) :=
  if (plan.texts k).isEmpty then some (.ok {})
  else (plan.panel? h k).bind fun
    | .error problems => some (.error problems)
    | .ok p => (p.responders.mapM fun r => h.closings (k, r.trustee.id)).map
      (conclude (plan.decryptor k) p (plan.texts k) (plan.combined k p))

variable [DecidableEq ι]

def opened (name : String) : State ι :=
  let outcome := (plan.circumstances k name).opening (h.household name) (plan.pads k)
  { h with
    household := Function.update h.household name outcome.2
    openings := Function.update h.openings (k, name) (some outcome.1) }

def closed (name : String) (batchId : BatchId) (challenges : List Exponent) : State ι :=
  let outcome := (plan.circumstances k name).closing (h.household name) batchId challenges
  { h with
    household := Function.update h.household name outcome.2
    closings := Function.update h.closings (k, name) (some outcome.1) }

/-- Some session makes one of its calls. The key holders answer, none of their tickets expires, and
a session sends challenges when its replies of round one are in. -/
inductive Step (plan : Plan ι) : State ι → State ι → Prop where
  | opening {h : State ι} {k : ι} {t : TrusteeProfile} :
      plan.texts k ≠ [] → t ∈ (plan.decryptor k).trustees → h.openings (k, t.id) = none →
        (plan.circumstances k t.id).answers (h.household t.id) = true →
          (h.household t.id).tickets.Unexpired (plan.circumstances k t.id).openedAt →
            Step plan h (plan.opened h k t.id)
  | closing {h : State ι} {k : ι} {p : Panel} {r : Responder} {challenges : List Exponent} :
      plan.panel? h k = some (.ok p) →
        (r, challenges) ∈ p.responders.zip (p.challenges (plan.combined k p)) →
          h.closings (k, r.trustee.id) = none →
            (h.household r.trustee.id).tickets.Unexpired
                (plan.circumstances k r.trustee.id).challengedAt →
              Step plan h (plan.closed h k r.trustee.id r.answer.batchId challenges)

/-- A session has made all its calls: two to each trustee, but none without ciphertexts. -/
def Complete : Prop :=
  plan.texts k = [] ∨ ∀ t ∈ (plan.decryptor k).trustees,
    (h.openings (k, t.id)).isSome = true ∧ (h.closings (k, t.id)).isSome = true

omit [DecidableEq ι] in
theorem panel?_eq_some {x : Except (List Problem) Panel} : plan.panel? h k = some x ↔
    (∀ t ∈ (plan.decryptor k).trustees, (h.openings (k, t.id)).isSome = true) ∧
      assemble (plan.decryptor k) (plan.texts k).length
        ((plan.decryptor k).trustees.map fun t => (h.openings (k, t.id)).getD .silent) = x := by
  have hreplies (hall : ∀ t ∈ (plan.decryptor k).trustees,
      (h.openings (k, t.id)).isSome = true) :
      ((plan.decryptor k).trustees.mapM fun t => h.openings (k, t.id)) =
        some ((plan.decryptor k).trustees.map fun t => (h.openings (k, t.id)).getD .silent) := by
    apply mapM_eq_some
    intro t ht
    obtain ⟨reply, hreply⟩ := Option.isSome_iff_exists.1 (hall t ht)
    rw [hreply, Option.getD_some]
  rw [panel?, Option.map_eq_some_iff]
  constructor
  · rintro ⟨replies, hmapM, rfl⟩
    have hall := isSome_of_mapM hmapM
    rw [hreplies hall, Option.some_inj] at hmapM
    exact ⟨hall, by rw [hmapM]⟩
  · rintro ⟨hall, rfl⟩
    exact ⟨_, hreplies hall, rfl⟩

variable {plan h k} {s : Household} {p : Panel} {k' : ι} {name name' : String}
  {answer answer' : PartialDecryptions} {batchId : BatchId} {challenges : List Exponent}

section Update

theorem household_opened_self : (plan.opened h k name).household name =
    ((plan.circumstances k name).opening (h.household name) (plan.pads k)).2 :=
  Function.update_self _ _ _

theorem household_opened_of_ne (hne : name' ≠ name) :
    (plan.opened h k name).household name' = h.household name' :=
  Function.update_of_ne hne _ _

theorem openings_opened_self : (plan.opened h k name).openings (k, name) =
    some ((plan.circumstances k name).opening (h.household name) (plan.pads k)).1 :=
  Function.update_self _ _ _

theorem openings_opened_of_ne (hne : (k', name') ≠ (k, name)) :
    (plan.opened h k name).openings (k', name') = h.openings (k', name') :=
  Function.update_of_ne hne _ _

theorem isSome_openings_opened {x : ι × String} :
    ((plan.opened h k name).openings x).isSome = true ↔
      x = (k, name) ∨ (h.openings x).isSome = true := by
  by_cases heq : x = (k, name)
  · simp [heq, openings_opened_self]
  · rw [openings_opened_of_ne heq, or_iff_right heq]

theorem household_closed_self : (plan.closed h k name batchId challenges).household name =
    ((plan.circumstances k name).closing (h.household name) batchId challenges).2 :=
  Function.update_self _ _ _

theorem household_closed_of_ne (hne : name' ≠ name) :
    (plan.closed h k name batchId challenges).household name' = h.household name' :=
  Function.update_of_ne hne _ _

theorem closings_closed_self : (plan.closed h k name batchId challenges).closings (k, name) =
    some ((plan.circumstances k name).closing (h.household name) batchId challenges).1 :=
  Function.update_self _ _ _

theorem closings_closed_of_ne (hne : (k', name') ≠ (k, name)) :
    (plan.closed h k name batchId challenges).closings (k', name') = h.closings (k', name') :=
  Function.update_of_ne hne _ _

theorem isSome_closings_closed {x : ι × String} :
    ((plan.closed h k name batchId challenges).closings x).isSome = true ↔
      x = (k, name) ∨ (h.closings x).isSome = true := by
  by_cases heq : x = (k, name)
  · simp [heq, closings_closed_self]
  · rw [closings_closed_of_ne heq, or_iff_right heq]

end Update

omit [DecidableEq ι] in
theorem formed_of_panel? (hpanel : plan.panel? h k = some (.ok p)) :
    p.Formed (plan.decryptor k) (plan.texts k).length :=
  formed_of_assemble (List.length_map _) (plan.panel?_eq_some h k |>.1 hpanel).2

omit [DecidableEq ι] in
theorem openings_of_panel? (hpanel : plan.panel? h k = some (.ok p)) {r : Responder}
    (hr : r ∈ p.responders) : h.openings (k, r.trustee.id) = some (.answered r.answer) := by
  obtain ⟨hall, hassemble⟩ := (plan.panel?_eq_some h k).1 hpanel
  obtain ⟨-, -, rfl⟩ := assemble_eq_ok.1 hassemble
  obtain ⟨⟨t, reply⟩, htr, hreply⟩ := List.mem_filterMap.1 hr
  rw [zip_map_self, List.mem_map] at htr
  obtain ⟨t', ht, htr⟩ := htr
  cases htr
  obtain rfl := (trustee_of_responder? hreply).1
  obtain ⟨reply, hopening⟩ := Option.isSome_iff_exists.1 (hall _ ht)
  rw [hopening, Option.getD_some] at hreply
  rw [hopening]
  cases reply with
  | answered a =>
    simp only [responder?, Option.ite_none_right_eq_some, Option.some.injEq] at hreply
    rw [← hreply.2]
  | silent => cases hreply
  | crashed => cases hreply
  | refused e => cases hreply

section Opened

variable (hnew : h.openings (k, name) = none)
include hnew

theorem openings_opened {reply : Reply PartialDecryptions}
    (hreply : h.openings (k', name') = some reply) :
    (plan.opened h k name).openings (k', name') = some reply := by
  have hne : (k', name') ≠ (k, name) := by
    intro heq
    rw [heq, hnew] at hreply
    cases hreply
  exact (openings_opened_of_ne hne).trans hreply

theorem panel?_opened {x : Except (List Problem) Panel} (hpanel : plan.panel? h k' = some x) :
    plan.panel? (plan.opened h k name) k' = some x := by
  obtain ⟨hall, rfl⟩ := (plan.panel?_eq_some h k').1 hpanel
  have hkept (t : TrusteeProfile) (ht : t ∈ (plan.decryptor k').trustees) :
      (plan.opened h k name).openings (k', t.id) = h.openings (k', t.id) := by
    obtain ⟨reply, hreply⟩ := Option.isSome_iff_exists.1 (hall t ht)
    rw [openings_opened hnew hreply, hreply]
  refine (plan.panel?_eq_some _ k').2 ⟨fun t ht => ?_, ?_⟩
  · rw [hkept t ht]
    exact hall t ht
  · congr 1
    apply List.map_congr_left
    intro t ht
    rw [hkept t ht]

theorem outstanding_opened (hclosing : h.closings (k, name) = none)
    (hanswer : ((plan.circumstances k name).opening (h.household name) (plan.pads k)).1 =
      .answered answer) :
    (plan.opened h k name).Outstanding name' k' answer' ↔
      (name' = name ∧ k' = k ∧ answer' = answer) ∨ h.Outstanding name' k' answer' := by
  simp only [State.Outstanding, Plan.opened, Function.update_apply, Prod.mk.injEq]
  by_cases heq : k' = k ∧ name' = name
  · obtain ⟨rfl, rfl⟩ := heq
    simp [hanswer, hclosing, hnew, eq_comm]
  · rw [if_neg heq]
    constructor
    · exact Or.inr
    · rintro (⟨rfl, rfl, -⟩ | hold)
      · exact absurd ⟨rfl, rfl⟩ heq
      · exact hold

end Opened

theorem outstanding_closed :
    (plan.closed h k name batchId challenges).Outstanding name' k' answer' ↔
      h.Outstanding name' k' answer' ∧ ¬ (k' = k ∧ name' = name) := by
  simp only [State.Outstanding, Plan.closed, Function.update_apply, Prod.mk.injEq]
  by_cases heq : k' = k ∧ name' = name
  · simp [heq]
  · rw [if_neg heq]
    exact ⟨fun hold => ⟨hold, heq⟩, fun hold => hold.1⟩

section Books

def ticketOf (plan : Plan ι) (name : String) (k : ι) : Ticket :=
  ⟨(plan.circumstances k name).seed, (plan.texts k).length, (plan.circumstances k name).openedAt⟩

/-- Every key holder holds the tickets of the sessions that wait for it, and those that it had. -/
def Books (plan : Plan ι) (s : Household) (h : State ι) : Prop :=
  ∀ name, (h.household name).Ledger (s name) (h.Outstanding name) (plan.ticketOf name)

namespace Books

omit [DecidableEq ι] in
theorem start (plan : Plan ι) (s : Household) : plan.Books s (start s) := by
  intro name
  apply KeyHolder.Ledger.refl
  rintro k answer ⟨hopening, -⟩
  cases hopening

variable (hbooks : plan.Books s h)
include hbooks

theorem opening (htexts : plan.texts k ≠ []) (hnew : h.openings (k, name) = none)
    (hclosing : h.closings (k, name) = none)
    (hanswers : (plan.circumstances k name).answers (h.household name) = true)
    (hfresh : (h.household name).tickets.Unexpired (plan.circumstances k name).openedAt) :
    plan.Books s (plan.opened h k name) := by
  obtain ⟨answer, hanswer, hfree, htickets⟩ :=
    Circumstances.opening_of_unexpired (pads_ne_nil htexts) hanswers hfresh
  intro name'
  by_cases heq : name' = name
  · subst heq
    rw [household_opened_self]
    refine (hbooks name').opening (k := k) Circumstances.continues_opening hfree ?_ ?_
    · exact htickets.trans (by simp [ticketOf])
    · intro k' answer'
      rw [outstanding_opened hnew hclosing hanswer]
      simp only [true_and]
  · rw [household_opened_of_ne heq]
    apply (hbooks name').congr
    intro k' answer'
    rw [outstanding_opened hnew hclosing hanswer]
    simp only [heq, false_and, false_or]

/-- A challenge is answered with the ticket of its own session. -/
theorem closing (hout : h.Outstanding name k answer)
    (hfresh : (h.household name).tickets.Unexpired (plan.circumstances k name).challengedAt)
    (hlength : challenges.length = (plan.texts k).length) :
    plan.Books s (plan.closed h k name answer.batchId challenges) ∧
      (plan.closed h k name answer.batchId challenges).closings (k, name) =
        some (.answered ⟨answer.batchId,
          (s name).responses (plan.circumstances k name).seed challenges⟩) := by
  obtain ⟨hanswer, htickets⟩ := Circumstances.closing_of_unexpired hfresh
    ((hbooks name).held k answer hout) hlength.symm
  constructor
  · intro name'
    by_cases heq : name' = name
    · subst heq
      rw [household_closed_self]
      refine (hbooks name').closing (Circumstances.continues_closing _ _) hout ?_ htickets ?_
      · intro answer' hold
        have hsame := hold.1.symm.trans hout.1
        rwa [Option.some_inj, Reply.answered.injEq] at hsame
      · intro k' answer'
        simp only [outstanding_closed, and_true, ne_eq]
    · rw [household_closed_of_ne heq]
      apply (hbooks name').congr
      intro k' answer'
      simp only [outstanding_closed, heq, and_false, not_false_eq_true, and_true]
  · rw [← (hbooks name).continues.responses_eq]
    exact closings_closed_self.trans (congrArg some hanswer)

end Books

end Books

end Plan

end ThresholdElGamal
