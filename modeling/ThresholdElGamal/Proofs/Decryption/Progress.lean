import ThresholdElGamal.Proofs.Decryption.Isolation

/-! # Sessions that share their trustees end

A trustee that tries as many batch ids as there are sessions has one left for each of them. So all
sessions can have opened their batches before any of them sends challenges, and all of them end.
-/

namespace ThresholdElGamal

/-- The calls come before any ticket of the key holder expires, and it tries so many batch ids more
than it has tickets. -/
structure Circumstances.Ample (c : Circumstances) (holder : KeyHolder) (room : ℕ) : Prop where
  punctual : c.punctual = true
  openedAt : c.openedAt < holder.tickets.ttl
  challengedAt : c.challengedAt < holder.tickets.ttl
  nodup : c.candidates.Nodup
  valid : .none ∉ c.candidates
  room : holder.tickets.entries.length + room ≤ c.candidates.length

theorem KeyHolder.Continues.unexpired {holder start : KeyHolder} (h : holder.Continues start)
    {now : ℕ} (hnow : now < start.tickets.ttl) : holder.tickets.Unexpired now := by
  intro held _
  rw [h.ttl]
  exact (Nat.sub_le now held.2.created).trans_lt hnow

theorem Circumstances.Ample.answers {c : Circumstances} {holder start : KeyHolder} {room : ℕ}
    (h : c.Ample start room) (hfresh : holder.tickets.Unexpired c.openedAt)
    (hlength : holder.tickets.entries.length < start.tickets.entries.length + room) :
    c.answers holder = true := by
  obtain ⟨id, hid, hfree⟩ := Tickets.exists_isFree h.nodup h.valid (hlength.trans_le h.room)
  rw [Circumstances.answers, hfresh.sweep_eq, h.punctual, Bool.true_and, List.any_eq_true]
  exact ⟨id, hid, hfree⟩

open Session

namespace Plan

variable {ι : Type} [DecidableEq ι] {plan : Plan ι} {s : Household}

/-- For which session a call is made, and to whom. -/
def key (x : ι × TrusteeProfile) : ι × String := (x.1, x.2.id)

section Calls

variable {h : State ι} {room : ℕ} {calls : List (ι × TrusteeProfile)}
  (htexts : ∀ k, plan.texts k ≠ [])
  (hample : ∀ k, ∀ t ∈ (plan.decryptor k).trustees,
    (plan.circumstances k t.id).Ample (s t.id) room)
  (hmem : ∀ x ∈ calls, x.2 ∈ (plan.decryptor x.1).trustees) (hnodup : (calls.map key).Nodup)
include htexts hample hmem hnodup

/-- Sessions open batches with trustees that have room for them. -/
theorem exists_opened (hroom : ∀ name, calls.countP (·.2.id == name) ≤ room) :
    ∃ h, Relation.ReflTransGen (Step plan) (start s) h ∧
      (∀ x, (h.openings x).isSome = true ↔ x ∈ calls.map key) ∧ (∀ x, h.closings x = none) ∧
      ∀ name, (h.household name).tickets.entries.length =
        (s name).tickets.entries.length + calls.countP (·.2.id == name) := by
  induction calls with
  | nil => exact ⟨start s, .refl, by simp [start], fun _ => rfl, fun _ => rfl⟩
  | cons x calls ih =>
    obtain ⟨k, t⟩ := x
    rw [List.forall_mem_cons] at hmem
    rw [List.map_cons, List.nodup_cons] at hnodup
    simp only [List.countP_cons] at hroom
    obtain ⟨h, hreach, hopenings, hclosings, hlength⟩ :=
      ih hmem.2 hnodup.2 fun name => (Nat.le_add_right _ _).trans (hroom name)
    have hcontinues := ((books_and_records hreach).1 t.id).continues
    have hfresh := hcontinues.unexpired (hample k t hmem.1).openedAt
    have hlt : (h.household t.id).tickets.entries.length <
        (s t.id).tickets.entries.length + room := by
      have hone := hroom t.id
      rw [beq_self_eq_true, if_pos rfl] at hone
      rw [hlength]
      omega
    have hanswers := (hample k t hmem.1).answers hfresh hlt
    have hnew : h.openings (k, t.id) = none :=
      Option.not_isSome_iff_eq_none.1 (mt (hopenings _).1 hnodup.1)
    refine ⟨_, hreach.tail (.opening (htexts k) hmem.1 hnew hanswers hfresh), ?_, hclosings, ?_⟩
    · intro x
      rw [isSome_openings_opened, hopenings, List.map_cons, List.mem_cons]
      rfl
    · intro name
      rw [List.countP_cons]
      by_cases heq : name = t.id
      · subst heq
        obtain ⟨answer, -, -, htickets⟩ :=
          Circumstances.opening_of_unexpired (pads_ne_nil (htexts k)) hanswers hfresh
        rw [household_opened_self, pads, htickets, List.length_cons, hlength, beq_self_eq_true,
          if_pos rfl, Nat.add_assoc]
      · rw [household_opened_of_ne heq, hlength, if_neg (by simpa using Ne.symm heq), Nat.add_zero]

omit hample in
/-- Sessions that have all replies of round one get those of round two. -/
theorem exists_closed
    (hchallenged : ∀ k, ∀ t ∈ (plan.decryptor k).trustees,
      (plan.circumstances k t.id).challengedAt < (s t.id).tickets.ttl)
    (hreach : Relation.ReflTransGen (Step plan) (start s) h)
    (hopenings : ∀ k, ∀ t ∈ (plan.decryptor k).trustees, (h.openings (k, t.id)).isSome = true)
    (hclosings : ∀ x, h.closings x = none) :
    ∃ h', Relation.ReflTransGen (Step plan) h h' ∧ h'.openings = h.openings ∧
      ∀ x, (h'.closings x).isSome = true ↔ x ∈ calls.map key := by
  induction calls with
  | nil => exact ⟨h, .refl, rfl, by simp [hclosings]⟩
  | cons x calls ih =>
    obtain ⟨k, t⟩ := x
    rw [List.forall_mem_cons] at hmem
    rw [List.map_cons, List.nodup_cons] at hnodup
    obtain ⟨h', hreach', hsame, hclosings'⟩ := ih hmem.2 hnodup.2
    obtain ⟨hbooks, hrecords⟩ := books_and_records (hreach.trans hreach')
    have hnew : h'.closings (k, t.id) = none :=
      Option.not_isSome_iff_eq_none.1 (mt (hclosings' _).1 hnodup.1)
    obtain ⟨batchId, challenges, hstep⟩ := hrecords.exists_closing (htexts k)
      (hsame ▸ hopenings k) hmem.1 hnew
        ((hbooks t.id).continues.unexpired (hchallenged k t hmem.1))
    refine ⟨_, hreach'.tail hstep, hsame, ?_⟩
    intro x
    rw [isSome_closings_closed, hclosings', List.map_cons, List.mem_cons]
    rfl

end Calls

section All

/-- The calls of a round that some sessions make to all their trustees. -/
def callsOf (plan : Plan ι) (ks : List ι) : List (ι × TrusteeProfile) :=
  ks.flatMap fun k => (plan.decryptor k).trustees.map (k, ·)

variable {ks : List ι}

omit [DecidableEq ι] in
theorem mem_callsOf {x : ι × TrusteeProfile} :
    x ∈ plan.callsOf ks ↔ x.1 ∈ ks ∧ x.2 ∈ (plan.decryptor x.1).trustees := by
  simp only [callsOf, List.mem_flatMap, List.mem_map]
  constructor
  · rintro ⟨k, hk, t, ht, rfl⟩
    exact ⟨hk, ht⟩
  · rintro ⟨hk, ht⟩
    exact ⟨x.1, hk, x.2, ht, rfl⟩

omit [DecidableEq ι] in
theorem nodup_callsOf (hks : ks.Nodup) : ((plan.callsOf ks).map key).Nodup := by
  rw [callsOf, List.map_flatMap, List.nodup_flatMap]
  constructor
  · intro k _
    have hids := (plan.decryptor k).nodup_ids.map (Prod.mk_right_injective k)
    rwa [List.map_map] at hids ⊢
  · refine hks.imp fun hne => ?_
    simp only [Function.onFun, List.disjoint_left, List.map_map, List.mem_map]
    rintro _ ⟨t, -, rfl⟩ ⟨t', -, heq⟩
    exact hne (congrArg Prod.fst heq).symm

omit [DecidableEq ι] in
theorem countP_callsOf_le (name : String) :
    (plan.callsOf ks).countP (·.2.id == name) ≤ ks.length := by
  have hone : ∀ k ∈ ks, ((plan.decryptor k).trustees.map (k, ·)).countP (·.2.id == name) ≤ 1 := by
    intro k _
    have hcount := List.nodup_iff_count_le_one.1 (plan.decryptor k).nodup_ids name
    rw [List.count, List.countP_map] at hcount
    rwa [List.countP_map]
  rw [callsOf, List.countP_flatMap]
  refine (List.sum_le_card_nsmul _ 1 (List.forall_mem_map.2 hone)).trans ?_
  simp

end All

/-- All sessions can wait for all their trustees at once, and then they end. -/
theorem exists_overlap {ks : List ι} (hks : ks.Nodup) (hall : ∀ k, k ∈ ks)
    (htexts : ∀ k, plan.texts k ≠ [])
    (hample : ∀ k, ∀ t ∈ (plan.decryptor k).trustees,
      (plan.circumstances k t.id).Ample (s t.id) ks.length) :
    ∃ h h', Relation.ReflTransGen (Step plan) (start s) h ∧ Relation.ReflTransGen (Step plan) h h' ∧
      (∀ k, ∀ t ∈ (plan.decryptor k).trustees, ∃ answer, h.Outstanding t.id k answer) ∧
        ∀ k, plan.Complete h' k := by
  have hmem : ∀ x ∈ plan.callsOf ks, x.2 ∈ (plan.decryptor x.1).trustees :=
    fun x hx => (mem_callsOf.1 hx).2
  have hcalled (k : ι) (t : TrusteeProfile) (ht : t ∈ (plan.decryptor k).trustees) :
      (k, t.id) ∈ (plan.callsOf ks).map key :=
    List.mem_map.2 ⟨(k, t), mem_callsOf.2 ⟨hall k, ht⟩, rfl⟩
  obtain ⟨h, hreach, hopenings, hclosings, -⟩ :=
    exists_opened htexts hample hmem (nodup_callsOf hks) countP_callsOf_le
  have hopened (k : ι) (t : TrusteeProfile) (ht : t ∈ (plan.decryptor k).trustees) :
      (h.openings (k, t.id)).isSome = true := (hopenings _).2 (hcalled k t ht)
  obtain ⟨h', hreach', hsame, hclosed⟩ := exists_closed htexts hmem (nodup_callsOf hks)
    (fun k t ht => (hample k t ht).challengedAt) hreach hopened hclosings
  refine ⟨h, h', hreach, hreach', ?_, ?_⟩
  · intro k t ht
    obtain ⟨answer, hanswer⟩ := (books_and_records hreach).2.exists_answer (hopened k t ht)
    exact ⟨answer, hanswer, hclosings _⟩
  · intro k
    refine Or.inr fun t ht => ⟨?_, (hclosed _).2 (hcalled k t ht)⟩
    rw [hsame]
    exact hopened k t ht

end Plan

end ThresholdElGamal
