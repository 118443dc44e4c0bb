import Mathlib.Data.List.Perm.Subperm
import ThresholdElGamal.Trustee.Tickets

/-! # Live tickets

What a key holder can be asked at a time are the tickets that are not stale by then. Issuing adds
one ticket to these, redeeming takes away the one that it answers, and nothing else changes them:
dropping stale tickets does not, and neither does a challenge that is refused.
-/

namespace ThresholdElGamal.Tickets

variable {s s' : Tickets} {now later size : ℕ} {candidates : List BatchId} {seed : Exponent}
  {id id' : BatchId} {ticket : Ticket}

/-- The ticket under an id, unless it is stale by then. -/
def live (s : Tickets) (now : ℕ) (id : BatchId) : Option Ticket := (s.sweep now).get? id

theorem size_sweep_le (s : Tickets) (now : ℕ) : (s.sweep now).size ≤ s.size :=
  List.length_filter_le _ _

/-- What is stale stays so, and a later sweep drops what an earlier one would have. -/
theorem sweep_sweep (h : now ≤ later) : (s.sweep now).sweep later = s.sweep later := by
  have hentries : ((s.sweep now).sweep later).entries = (s.sweep later).entries := by
    refine List.filter_filter.trans (List.filter_congr fun e _ => ?_)
    change (decide (later - e.2.created < s.ttl) && decide (now - e.2.created < s.ttl)) =
      decide (later - e.2.created < s.ttl)
    rw [← Bool.decide_and, decide_eq_decide]
    omega
  exact congrArg (Tickets.mk s.ttl) hentries

theorem live_sweep (h : now ≤ later) (id : BatchId) :
    (s.sweep now).live later id = s.live later id := by
  rw [live, sweep_sweep h, live]

theorem get?_eq_none : s.get? id = none ↔ ∀ e ∈ s.entries, e.1 ≠ id := by
  simp only [get?, List.lookup_eq_none_iff, bne_iff_ne, ne_comm]

theorem isFree_iff : s.isFree id = true ↔ id ≠ .none ∧ s.get? id = none := by
  simp [isFree]

theorem mem_of_get? (h : s.get? id = some ticket) : (id, ticket) ∈ s.entries := by
  rw [get?, List.lookup_eq_some_iff] at h
  obtain ⟨before, after, h, -⟩ := h
  simp [h]

theorem get?_cons {ttl : ℕ} {rest : List (BatchId × Ticket)} :
    get? ⟨ttl, (id, ticket) :: rest⟩ id' =
      if id' = id then some ticket else get? ⟨ttl, rest⟩ id' := by
  simp only [get?, List.lookup_cons]
  split
  · next h => rw [if_pos (by simpa using h)]
  · next h => rw [if_neg (by simpa using h)]

theorem live_cons {ttl : ℕ} {rest : List (BatchId × Ticket)} :
    live ⟨ttl, (id, ticket) :: rest⟩ now id' =
      if id' = id ∧ now - ticket.created < ttl then some ticket else live ⟨ttl, rest⟩ now id' := by
  by_cases hfresh : now - ticket.created < ttl
  · have hsweep : sweep ⟨ttl, (id, ticket) :: rest⟩ now =
        ⟨ttl, (id, ticket) :: (sweep ⟨ttl, rest⟩ now).entries⟩ := by
      simp [sweep, hfresh]
    simp only [live, hsweep, get?_cons, hfresh, and_true]
    rfl
  · have hsweep : sweep ⟨ttl, (id, ticket) :: rest⟩ now = sweep ⟨ttl, rest⟩ now := by
      simp [sweep, hfresh]
    rw [live, hsweep, if_neg fun h => hfresh h.2, live]

section Unexpired

/-- No ticket is stale. -/
def Unexpired (s : Tickets) (now : ℕ) : Prop := ∀ e ∈ s.entries, now - e.2.created < s.ttl

theorem Unexpired.sweep_eq (h : s.Unexpired now) : s.sweep now = s :=
  congrArg (Tickets.mk s.ttl) (List.filter_eq_self.2 fun e he => decide_eq_true (h e he))

theorem Unexpired.live_eq (h : s.Unexpired now) (id : BatchId) : s.live now id = s.get? id := by
  rw [live, h.sweep_eq]

end Unexpired

/-- Of more ids than there are tickets one is free. -/
theorem exists_isFree (hnodup : candidates.Nodup) (hvalid : .none ∉ candidates)
    (hroom : s.entries.length < candidates.length) :
    ∃ id ∈ candidates, s.isFree id = true := by
  by_contra! hfull
  have hsubset : candidates ⊆ s.entries.map (·.1) := by
    intro id hid
    have htaken := mt isFree_iff.2 (hfull id hid)
    rw [get?_eq_none] at htaken
    push Not at htaken
    obtain ⟨e, he, rfl⟩ := htaken (ne_of_mem_of_not_mem hid hvalid)
    exact List.mem_map_of_mem he
  have hlength := (hnodup.subperm hsubset).length_le
  rw [List.length_map] at hlength
  exact absurd hroom (Nat.not_lt.2 hlength)

section Issue

theorem issue_eq_some : s.issue now candidates seed size = some (id, s') ↔
    candidates.find? (s.sweep now).isFree = some id ∧
      s' = ⟨s.ttl, (id, ⟨seed, size, now⟩) :: (s.sweep now).entries⟩ := by
  simp only [issue, Option.map_eq_some_iff, Prod.mk.injEq]
  constructor
  · rintro ⟨found, hfound, rfl, rfl⟩
    exact ⟨hfound, rfl⟩
  · rintro ⟨hfound, rfl⟩
    exact ⟨id, hfound, rfl, rfl⟩

variable (h : s.issue now candidates seed size = some (id, s'))
include h

theorem free_of_issue : id ≠ .none ∧ (s.sweep now).get? id = none :=
  isFree_iff.1 (List.find?_some (issue_eq_some.1 h).1)

theorem live_of_issue (hle : now ≤ later) : s.live later id = none := by
  have hfree := get?_eq_none.1 (free_of_issue h).2
  rw [← live_sweep hle, live, get?_eq_none]
  exact fun e he => hfree e (List.mem_of_mem_filter he)

theorem live_issue_id : s'.live later id =
    if later - now < s.ttl then some ⟨seed, size, now⟩ else none := by
  obtain ⟨-, rfl⟩ := issue_eq_some.1 h
  have hfree := get?_eq_none.1 (free_of_issue h).2
  have hrest : live ⟨s.ttl, (s.sweep now).entries⟩ later id = none :=
    get?_eq_none.2 fun e he => hfree e (List.mem_of_mem_filter he)
  rw [live_cons, hrest]
  simp only [true_and]

theorem live_issue_self (hfresh : later - now < s.ttl) :
    s'.live later id = some ⟨seed, size, now⟩ := by
  rw [live_issue_id h, if_pos hfresh]

/-- The new ticket is live until it is stale, and the other tickets are as they were. -/
theorem live_issue (hle : now ≤ later) (id' : BatchId) :
    s'.live later id' =
      if id' = id ∧ later - now < s.ttl then some ⟨seed, size, now⟩ else s.live later id' := by
  obtain ⟨-, rfl⟩ := issue_eq_some.1 h
  rw [live_cons, ← live_sweep (s := s) hle]
  rfl

end Issue

section Redeem

theorem redeem_eq : (s.redeem now id size).1 =
    match s.live now id with
    | none => .error (.unknownBatch id)
    | some ticket =>
      if ticket.size = size then .ok ticket.seed
      else .error (.lengthMismatch id (UInt64.ofNat ticket.size) (UInt64.ofNat size)) := by
  rw [redeem, live]
  cases (s.sweep now).get? id with
  | none => rfl
  | some ticket => by_cases hsize : ticket.size = size <;> simp [hsize]

theorem redeem_eq_ok : (s.redeem now id size).1 = .ok seed ↔
    ∃ ticket, s.live now id = some ticket ∧ ticket.size = size ∧ ticket.seed = seed := by
  rw [redeem_eq]
  cases s.live now id with
  | none => simp
  | some ticket => by_cases hsize : ticket.size = size <;> simp [hsize]

theorem get?_erase : (s.erase id).get? id' = if id' = id then none else s.get? id' := by
  obtain ⟨ttl, entries⟩ := s
  induction entries with
  | nil => simp [erase, get?]
  | cons e entries ih =>
    obtain ⟨k, ticket⟩ := e
    have hcons : erase ⟨ttl, (k, ticket) :: entries⟩ id =
        if k = id then erase ⟨ttl, entries⟩ id
        else ⟨ttl, (k, ticket) :: (erase ⟨ttl, entries⟩ id).entries⟩ := by
      by_cases hk : k = id <;> simp [erase, hk]
    rw [hcons, get?_cons]
    by_cases hk : k = id
    · rw [if_pos hk, ih, hk]
      split <;> simp_all
    · rw [if_neg hk, get?_cons]
      split
      · next heq => rw [heq, if_neg hk]
      · exact ih

theorem live_erase : (s.erase id).live now id' = if id' = id then none else s.live now id' := by
  have hcomm : (s.erase id).sweep now = (s.sweep now).erase id :=
    congrArg (Tickets.mk s.ttl) (List.filter_comm _ _ _)
  rw [live, hcomm, get?_erase, live]

/-- A redeemed ticket is gone; otherwise the live tickets are as they were. -/
theorem live_redeem (hle : now ≤ later) (id' : BatchId) :
    (s.redeem now id size).2.live later id' =
      if id' = id ∧ (s.redeem now id size).1.isOk then none else s.live later id' := by
  rw [redeem]
  cases (s.sweep now).get? id with
  | none => simp [live_sweep hle, Except.isOk, Except.toBool]
  | some ticket =>
    by_cases hsize : ticket.size = size
    · simp [hsize, live_erase, live_sweep hle, Except.isOk, Except.toBool]
    · simp [hsize, live_sweep hle, Except.isOk, Except.toBool]

theorem ttl_redeem : (s.redeem now id size).2.ttl = s.ttl := by
  rw [redeem]
  split
  · rfl
  · split <;> rfl

end Redeem

end ThresholdElGamal.Tickets
