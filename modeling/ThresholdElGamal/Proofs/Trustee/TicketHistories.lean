import Mathlib.Data.Set.Function
import ThresholdElGamal.Proofs.Trustee.Tickets

/-! # Histories of tickets

Tickets are issued, redeemed and dropped in any order, on a clock that does not run backwards. An
id can be drawn again once its ticket is gone, so what counts for a challenge is what was issued
last under its id: the seed comes out exactly when that ticket is fresh, was not redeemed since and
was made for as many ciphertexts.
-/

namespace ThresholdElGamal

theorem getElem?_snoc_eq_some {α : Type} {l : List α} {x y : α} {i : ℕ} :
    (l ++ [x])[i]? = some y ↔ l[i]? = some y ∨ i = l.length ∧ x = y := by
  rcases Nat.lt_trichotomy i l.length with hlt | rfl | hgt
  · rw [List.getElem?_append_left hlt]
    simp [hlt.ne]
  · simp
  · rw [List.getElem?_eq_none (by simpa [Nat.succ_le_iff] using hgt), List.getElem?_eq_none hgt.le]
    simp [hgt.ne']

namespace Tickets

/-- A call that was made, with its outcome. -/
inductive Event where
  | issued (id : BatchId) (ticket : Ticket)
  | redeemed (now : ℕ) (id : BatchId) (size : ℕ) (outcome : Except TrusteeError Exponent)
  | expired (now dropped : ℕ)

namespace Event

def time : Event → ℕ
  | issued _ ticket => ticket.created
  | redeemed now _ _ _ => now
  | expired now _ => now

/-- What was issued under the id before does not stand any more. -/
def Ends (id : BatchId) : Event → Prop
  | issued id' _ => id' = id
  | redeemed _ id' _ outcome => id' = id ∧ outcome.isOk = true
  | expired _ _ => False

end Event

/-- One call: what happens, and the tickets afterwards. -/
inductive Step : Tickets → Event → Tickets → Prop where
  | issue {s s' : Tickets} {now : ℕ} {candidates : List BatchId} {seed : Exponent} {size : ℕ}
      {id : BatchId} : s.issue now candidates seed size = some (id, s') →
        Step s (.issued id ⟨seed, size, now⟩) s'
  | redeem (s : Tickets) (now : ℕ) (id : BatchId) (size : ℕ) :
      Step s (.redeemed now id size (s.redeem now id size).1) (s.redeem now id size).2
  | expire (s : Tickets) (now : ℕ) : Step s (.expired now (s.expire now).1) (s.expire now).2

/-- Any calls, one after the other, on a clock that does not run backwards. -/
inductive History (ttl : ℕ) : List Event → Tickets → Prop where
  | nil : History ttl [] { ttl }
  | snoc {events : List Event} {s s' : Tickets} {event : Event} :
      History ttl events s → (∀ e ∈ events, e.time ≤ event.time) → Step s event s' →
        History ttl (events ++ [event]) s'

/-- The ticket is what was issued last under the id, and it was not redeemed since. -/
def Standing (events : List Event) (position : ℕ) (id : BatchId) (ticket : Ticket) : Prop :=
  events[position]? = some (.issued id ticket) ∧
    ∀ later event, position < later → events[later]? = some event → ¬ event.Ends id

/-- The ticket stands under the id and is below the age limit. -/
def Available (ttl : ℕ) (events : List Event) (now : ℕ) (id : BatchId) (ticket : Ticket) : Prop :=
  ∃ position, Standing events position id ticket ∧ now - ticket.created < ttl

variable {ttl now later position size : ℕ} {events : List Event} {event : Event} {s s' : Tickets}
  {id id' : BatchId} {ticket ticket' : Ticket}

theorem standing_snoc : Standing (events ++ [event]) position id ticket ↔
    (position = events.length ∧ event = .issued id ticket) ∨
      (Standing events position id ticket ∧ ¬ event.Ends id) := by
  constructor
  · rintro ⟨hget, hlater⟩
    rcases getElem?_snoc_eq_some.1 hget with hget | hlast
    · have hlt : position < events.length := (List.getElem?_eq_some_iff.1 hget).1
      refine Or.inr ⟨⟨hget, ?_⟩, ?_⟩
      · intro later e hlater' he
        exact hlater later e hlater' (getElem?_snoc_eq_some.2 (Or.inl he))
      · exact hlater _ _ hlt (getElem?_snoc_eq_some.2 (Or.inr ⟨rfl, rfl⟩))
    · exact Or.inl hlast
  · rintro (⟨rfl, rfl⟩ | ⟨⟨hget, hlater⟩, hends⟩)
    · refine ⟨getElem?_snoc_eq_some.2 (Or.inr ⟨rfl, rfl⟩), ?_⟩
      intro later e hlater he
      rw [List.getElem?_eq_none (by simpa [Nat.succ_le_iff] using hlater)] at he
      cases he
    · refine ⟨getElem?_snoc_eq_some.2 (Or.inl hget), ?_⟩
      intro later e hlater' he
      rcases getElem?_snoc_eq_some.1 he with he | ⟨-, rfl⟩
      · exact hlater later e hlater' he
      · exact hends

theorem available_snoc : Available ttl (events ++ [event]) now id ticket ↔
    (event = .issued id ticket ∧ now - ticket.created < ttl) ∨
      (Available ttl events now id ticket ∧ ¬ event.Ends id) := by
  simp only [Available, standing_snoc, or_and_right, exists_or, and_assoc, exists_eq_left,
    exists_and_right]
  rw [and_comm (a := ¬ event.Ends id)]

theorem Standing.issued {k : ℕ} (h : Standing (events.take k) position id ticket) :
    position < k ∧ events[position]? = some (.issued id ticket) := by
  have hlt : position < k := by
    have hlength := (List.getElem?_eq_some_iff.1 h.1).1
    rw [List.length_take] at hlength
    omega
  refine ⟨hlt, ?_⟩
  rw [← List.getElem?_take_of_lt hlt]
  exact h.1

/-- No later challenge finds a ticket that was redeemed. -/
theorem Standing.le_of_redeemed {k l : ℕ} {seed : Exponent}
    (hk : Standing (events.take k) position id ticket)
    (hl : Standing (events.take l) position id' ticket')
    (hevent : events[k]? = some (.redeemed now id size (.ok seed))) : l ≤ k := by
  obtain ⟨hlt, hissued⟩ := hk.issued
  obtain ⟨-, hissued'⟩ := hl.issued
  rw [hissued, Option.some_inj, Event.issued.injEq] at hissued'
  by_contra hkl
  rw [← List.getElem?_take_of_lt (Nat.lt_of_not_le hkl)] at hevent
  exact hl.2 k _ hlt hevent ⟨hissued'.1, rfl⟩

theorem clock_snoc : (∀ e ∈ events ++ [event], e.time ≤ later) ↔
    (∀ e ∈ events, e.time ≤ later) ∧ event.time ≤ later := by
  rw [List.forall_mem_append, List.forall_mem_singleton]

/-- From the last event on, the live tickets are those that are available. -/
def Tracks (ttl : ℕ) (events : List Event) (s : Tickets) : Prop :=
  ∀ now, (∀ e ∈ events, e.time ≤ now) → ∀ id ticket,
    s.live now id = some ticket ↔ Available ttl events now id ticket

section Step

variable (htracks : Tracks ttl events s)
include htracks

theorem Tracks.issue {candidates : List BatchId} {seed : Exponent} (httl : s.ttl = ttl)
    (h : s.issue now candidates seed size = some (id, s')) :
    Tracks ttl (events ++ [.issued id ⟨seed, size, now⟩]) s' := by
  intro later hclock id' ticket
  obtain ⟨hevents, hle⟩ := clock_snoc.1 hclock
  change now ≤ later at hle
  rw [live_issue h hle, httl, available_snoc, Event.issued.injEq, Event.Ends]
  by_cases hid : id' = id
  · subst hid
    have hgone : s.live later id' ≠ some ticket := by
      rw [live_of_issue h hle]
      exact Option.some_ne_none ticket |>.symm
    by_cases hfresh : later - now < ttl
    · rw [if_pos ⟨rfl, hfresh⟩, Option.some_inj]
      constructor
      · rintro rfl
        exact Or.inl ⟨⟨rfl, rfl⟩, hfresh⟩
      · rintro (⟨⟨-, rfl⟩, -⟩ | ⟨-, hends⟩)
        · rfl
        · exact absurd rfl hends
    · rw [if_neg fun hnew => hfresh hnew.2]
      constructor
      · exact fun hlive => absurd hlive hgone
      · rintro (⟨⟨-, rfl⟩, hnew⟩ | ⟨-, hends⟩)
        · exact absurd hnew hfresh
        · exact absurd rfl hends
  · rw [if_neg fun hnew => hid hnew.1, htracks later hevents]
    constructor
    · exact fun havailable => Or.inr ⟨havailable, fun heq => hid heq.symm⟩
    · rintro (⟨⟨rfl, -⟩, -⟩ | ⟨havailable, -⟩)
      · exact absurd rfl hid
      · exact havailable

theorem Tracks.redeem (now : ℕ) (id : BatchId) (size : ℕ) :
    Tracks ttl (events ++ [.redeemed now id size (s.redeem now id size).1])
      (s.redeem now id size).2 := by
  intro later hclock id' ticket
  obtain ⟨hevents, hle⟩ := clock_snoc.1 hclock
  change now ≤ later at hle
  rw [live_redeem hle, available_snoc, ← htracks later hevents, Event.Ends, eq_comm (a := id)]
  by_cases hends : id' = id ∧ (s.redeem now id size).1.isOk = true
  · simp [hends]
  · simp [hends]

theorem Tracks.expire (now : ℕ) :
    Tracks ttl (events ++ [.expired now (s.expire now).1]) (s.expire now).2 := by
  intro later hclock id ticket
  obtain ⟨hevents, hle⟩ := clock_snoc.1 hclock
  change now ≤ later at hle
  change (s.sweep now).live later id = some ticket ↔ _
  rw [live_sweep hle, htracks later hevents, available_snoc]
  simp [Event.Ends]

end Step

section Proper

/-- The ids of the tickets are distinct, and none of them is that of the empty batch. -/
structure Proper (s : Tickets) : Prop where
  nonzero : ∀ e ∈ s.entries, e.1 ≠ .none
  nodup : (s.entries.map (·.1)).Nodup

theorem Proper.filter (h : s.Proper) (keep : BatchId × Ticket → Bool) :
    Proper { s with entries := s.entries.filter keep } where
  nonzero := fun e he => h.nonzero e (List.mem_of_mem_filter he)
  nodup := h.nodup.sublist (List.filter_sublist.map _)

theorem Proper.sweep (h : s.Proper) (now : ℕ) : (s.sweep now).Proper := h.filter _

theorem Proper.issue {candidates : List BatchId} {seed : Exponent} (h : s.Proper)
    (hissue : s.issue now candidates seed size = some (id, s')) : s'.Proper := by
  obtain ⟨hne, hfree⟩ := free_of_issue hissue
  obtain ⟨-, rfl⟩ := issue_eq_some.1 hissue
  refine ⟨List.forall_mem_cons.2 ⟨hne, (h.sweep now).nonzero⟩, ?_⟩
  rw [List.map_cons, List.nodup_cons]
  refine ⟨?_, (h.sweep now).nodup⟩
  intro hmem
  obtain ⟨e, he, heq⟩ := List.mem_map.1 hmem
  exact get?_eq_none.1 hfree e he heq

theorem Proper.redeem (h : s.Proper) (now : ℕ) (id : BatchId) (size : ℕ) :
    (s.redeem now id size).2.Proper := by
  rw [Tickets.redeem]
  split
  · exact h.sweep now
  · split
    · exact (h.sweep now).filter _
    · exact h.sweep now

end Proper

section Run

variable (h : History ttl events s)
include h

theorem History.ttl_eq : s.ttl = ttl := by
  induction h with
  | nil => rfl
  | snoc _ _ hstep ih =>
    cases hstep with
    | issue hissue =>
      obtain ⟨-, rfl⟩ := issue_eq_some.1 hissue
      exact ih
    | redeem now id size => exact ttl_redeem.trans ih
    | expire now => exact ih

theorem History.tracks : Tracks ttl events s := by
  induction h with
  | nil =>
    intro now _ id ticket
    simp [live, Tickets.sweep, get?, Available, Standing]
  | snoc hhistory _ hstep ih =>
    cases hstep with
    | issue hissue => exact ih.issue hhistory.ttl_eq hissue
    | redeem now id size => exact ih.redeem now id size
    | expire now => exact ih.expire now

theorem History.proper : s.Proper := by
  induction h with
  | nil => exact ⟨by simp, by simp⟩
  | snoc _ _ hstep ih =>
    cases hstep with
    | issue hissue => exact ih.issue hissue
    | redeem now id size => exact ih.redeem now id size
    | expire now => exact ih.sweep now

theorem History.exists_step (hevent : events[position]? = some event) :
    ∃ before after, History ttl (events.take position) before ∧
      (∀ e ∈ events.take position, e.time ≤ event.time) ∧ Step before event after := by
  induction h with
  | nil => simp at hevent
  | @snoc events s s' last hhistory hclock hstep ih =>
    rcases getElem?_snoc_eq_some.1 hevent with hbefore | ⟨rfl, rfl⟩
    · rw [List.take_append_of_le_length (List.getElem?_eq_some_iff.1 hbefore).1.le]
      exact ih hbefore
    · rw [List.take_left]
      exact ⟨s, s', hhistory, hclock, hstep⟩

/-- What a challenge finds is what is available under its id. -/
theorem History.redeemed_iff {outcome : Except TrusteeError Exponent}
    (hevent : events[position]? = some (.redeemed now id size outcome)) :
    (∀ seed, outcome = .ok seed ↔ ∃ ticket, Available ttl (events.take position) now id ticket ∧
      ticket.seed = seed ∧ ticket.size = size) ∧
    (∀ stored, outcome = .error (.lengthMismatch id stored (.ofNat size)) ↔
      ∃ ticket, Available ttl (events.take position) now id ticket ∧
        .ofNat ticket.size = stored ∧ ticket.size ≠ size) ∧
    (outcome = .error (.unknownBatch id) ↔
      ∀ ticket, ¬ Available ttl (events.take position) now id ticket) := by
  obtain ⟨before, after, hhistory, hclock, hstep⟩ := h.exists_step hevent
  have hlive := hhistory.tracks now hclock id
  cases hstep with
  | redeem =>
    simp only [← hlive, redeem_eq]
    cases before.live now id with
    | none => simp
    | some ticket => by_cases hsize : ticket.size = size <;> simp [hsize]

/-- A challenge of the wrong length leaves the ticket to a later one of the right length. -/
theorem History.redeem_of_mismatch (hclock : ∀ e ∈ events, e.time ≤ now) (hle : now ≤ later)
    (havailable : Available ttl events later id ticket) (hsize : ticket.size ≠ size) :
    ((s.redeem now id size).2.redeem later id ticket.size).1 = .ok ticket.seed := by
  have hnow : s.live now id = some ticket := by
    obtain ⟨position, hstanding, hfresh⟩ := havailable
    exact (h.tracks now hclock id ticket).2 ⟨position, hstanding, by omega⟩
  have hlater : s.live later id = some ticket :=
    (h.tracks later (fun e he => (hclock e he).trans hle) id ticket).2 havailable
  have hkept : (s.redeem now id size).2.live later id = some ticket := by
    rw [live_redeem hle, redeem_eq, hnow]
    simpa [hsize, Except.isOk, Except.toBool] using hlater
  exact redeem_eq_ok.2 ⟨ticket, hkept, rfl, rfl⟩

/-- The seed of every ticket comes out once at most. -/
theorem History.exists_issueOf : ∃ issueOf : ℕ → ℕ,
    Set.InjOn issueOf {position | ∃ now id size seed,
      events[position]? = some (.redeemed now id size (.ok seed))} ∧
    ∀ position now id size seed,
      events[position]? = some (.redeemed now id size (.ok seed)) →
        ∃ ticket, Standing (events.take position) (issueOf position) id ticket ∧
          ticket.seed = seed := by
  have hissue : ∀ position, ∃ issue, ∀ now id size seed,
      events[position]? = some (.redeemed now id size (.ok seed)) →
        ∃ ticket, Standing (events.take position) issue id ticket ∧ ticket.seed = seed := by
    intro position
    by_cases hredeemed : ∃ now id size seed,
        events[position]? = some (.redeemed now id size (.ok seed))
    · obtain ⟨now, id, size, seed, hevent⟩ := hredeemed
      obtain ⟨ticket, ⟨issue, hstanding, -⟩, hseed, -⟩ :=
        ((h.redeemed_iff hevent).1 seed).1 rfl
      refine ⟨issue, ?_⟩
      intro now' id' size' seed' hevent'
      rw [hevent] at hevent'
      cases hevent'
      exact ⟨ticket, hstanding, hseed⟩
    · refine ⟨0, ?_⟩
      intro now id size seed hevent
      exact absurd ⟨now, id, size, seed, hevent⟩ hredeemed
  choose issueOf hissueOf using hissue
  refine ⟨issueOf, ?_, hissueOf⟩
  rintro k ⟨now, id, size, seed, hk⟩ l ⟨now', id', size', seed', hl⟩ heq
  obtain ⟨ticket, hstanding, -⟩ := hissueOf k now id size seed hk
  obtain ⟨ticket', hstanding', -⟩ := hissueOf l now' id' size' seed' hl
  rw [← heq] at hstanding'
  exact le_antisymm (hstanding'.le_of_redeemed hstanding hl)
    (hstanding.le_of_redeemed hstanding' hk)

end Run

/-- A stream that offers a free id at some time yields the ticket, however much of it is seen. -/
theorem issue_of_stream {candidates : ℕ → BatchId} {n : ℕ}
    (hfree : (s.sweep now).isFree (candidates n) = true) (seed : Exponent) (size : ℕ) :
    ∃ id s', ∀ seen, n < seen →
      s.issue now ((List.range seen).map candidates) seed size = some (id, s') := by
  obtain ⟨id, hid⟩ : ∃ id, ((List.range (n + 1)).map candidates).find? (s.sweep now).isFree =
      some id := by
    rw [← Option.isSome_iff_exists, List.find?_isSome]
    exact ⟨candidates n, List.mem_map_of_mem (by simp), hfree⟩
  refine ⟨id, ⟨s.ttl, (id, ⟨seed, size, now⟩) :: (s.sweep now).entries⟩, ?_⟩
  intro seen hseen
  obtain ⟨rest, rfl⟩ := Nat.exists_eq_add_of_le hseen
  have happend : List.range (n + 1 + rest) =
      List.range (n + 1) ++ (List.range rest).map (n + 1 + ·) := List.range_add
  have hbefore : List.range (n + 1) <+: List.range (n + 1 + rest) := by
    rw [happend]
    exact List.prefix_append _ _
  exact issue_eq_some.2 ⟨(hbefore.map candidates).find?_eq_some hid, rfl⟩

/-- Whatever is asked of the tickets, and in whatever order, a challenge finds the seed exactly when
the ticket that was issued last under its id is fresh, was not redeemed since and has its size. With
another size it is refused and the ticket stays; without such a ticket the id is unknown. The ids
are nonzero and distinct at all times, and every seed comes out once at most. -/
theorem single_use (h : History ttl events s) :
    (∀ now (candidates : ℕ → BatchId) n seed size,
      (s.sweep now).isFree (candidates n) = true → ∃ id s', ∀ seen, n < seen →
        s.issue now ((List.range seen).map candidates) seed size = some (id, s')) ∧
    (∀ position now id size outcome,
      events[position]? = some (.redeemed now id size outcome) →
        (∀ seed, outcome = .ok seed ↔
          ∃ ticket, Available ttl (events.take position) now id ticket ∧
            ticket.seed = seed ∧ ticket.size = size) ∧
        (∀ stored, outcome = .error (.lengthMismatch id stored (.ofNat size)) ↔
          ∃ ticket, Available ttl (events.take position) now id ticket ∧
            .ofNat ticket.size = stored ∧ ticket.size ≠ size) ∧
        (outcome = .error (.unknownBatch id) ↔
          ∀ ticket, ¬ Available ttl (events.take position) now id ticket)) ∧
    (∀ now later id ticket size, (∀ e ∈ events, e.time ≤ now) → now ≤ later →
      Available ttl events later id ticket → ticket.size ≠ size →
        ((s.redeem now id size).2.redeem later id ticket.size).1 = .ok ticket.seed) ∧
    (∀ e ∈ s.entries, e.1 ≠ .none) ∧ (s.entries.map (·.1)).Nodup ∧
    ∃ issueOf : ℕ → ℕ,
      Set.InjOn issueOf {position | ∃ now id size seed,
        events[position]? = some (.redeemed now id size (.ok seed))} ∧
      ∀ position now id size seed,
        events[position]? = some (.redeemed now id size (.ok seed)) →
          ∃ ticket, Standing (events.take position) (issueOf position) id ticket ∧
            ticket.seed = seed := by
  refine ⟨?_, ?_, ?_, h.proper.nonzero, h.proper.nodup, h.exists_issueOf⟩
  · intro now candidates n seed size hfree
    exact issue_of_stream hfree seed size
  · intro position now id size outcome hevent
    exact h.redeemed_iff hevent
  · intro now later id ticket size hclock hle havailable hsize
    exact h.redeem_of_mismatch hclock hle havailable hsize

theorem single_use_after_mismatch : ∃ events s, History 60 events s ∧
    (∃ ticket, Available 60 (events.take 2) 59 ⟨1⟩ ticket ∧ ticket.seed = .one ∧ ticket.size = 3) ∧
      ∀ ticket, ¬ Available 60 (events.take 3) 59 ⟨1⟩ ticket := by
  obtain ⟨s, hissue⟩ : ∃ s, issue { ttl := 60 } 0 [.none, ⟨1⟩] .one 3 = some (⟨1⟩, s) := ⟨_, rfl⟩
  have hissued := History.nil.snoc (by simp) (.issue hissue)
  have hshort := hissued.snoc (by simp [Event.time]) (.redeem s 0 ⟨1⟩ 2)
  have hright := hshort.snoc (by simp [Event.time]) (.redeem _ 59 ⟨1⟩ 3)
  have hagain := hright.snoc (by simp [Event.time]) (.redeem _ 59 ⟨1⟩ 3)
  obtain ⟨-, houtcome, -⟩ := single_use hagain
  obtain ⟨-, rfl⟩ := issue_eq_some.1 hissue
  refine ⟨_, _, hagain, ?_, ?_⟩
  · exact ((houtcome 2 59 ⟨1⟩ 3 _ rfl).1 .one).1 rfl
  · exact (houtcome 3 59 ⟨1⟩ 3 _ rfl).2.2.1 rfl

end Tickets

end ThresholdElGamal
