import ThresholdElGamal.Proofs.Decryption.Progress

/-! # Concurrent sessions end as they do alone

Any number of sessions share the trustees of a dealt election. Each of them ends as it does alone,
with the powers of the secret key and a record that verifies, and leaves no ticket behind.
-/

namespace ThresholdElGamal

open Session

section Dealt

variable {σ : Type} {draw : StateT σ Option Exponent} {manifest : String} {n quorum : UInt32}
  {ttl : ℕ} {source rest : σ} {e : DealtElection} {s : Household} {ι : Type} [DecidableEq ι]
  {plan : Plan ι} {trustees : ι → List TrusteeProfile} {config : ι → DecryptionConfig}
  {h : Plan.State ι}

/-- However the calls of sessions over the same dealt key holders interleave, every session that has
made all its calls ends as it does alone, with the powers of the secret key and a record that
verifies. No ticket that was there is touched, every other belongs to a session that still waits,
and when all sessions have ended none of these is left. -/
theorem concurrent_sessions_undisturbed
    (hdealt : (Dealer.generate draw manifest n quorum ttl).run source = some (.ok e, rest))
    (hnew : ∀ k, Decryptor.new e.context e.roster (trustees k) (config k) =
      .ok (plan.decryptor k))
    (hstaff : ∀ k, e.Staffs s (trustees k))
    (hsize : ∀ k, (plan.texts k).length ≤ UInt64.size)
    (hreach : Relation.ReflTransGen (Plan.Step plan) (Plan.start s) h) :
    (∀ k, (plan.outcome? h k).isSome = true ↔ plan.Complete h k) ∧
    (∀ (k : ι) (outcome : Except (List Problem) Decryptions), plan.outcome? h k = some outcome →
      (∀ metrics, ((run (plan.decryptor k) (Household.transport (plan.circumstances k)) metrics
        (plan.texts k)).run s).1.1 = outcome) ∧
      ∃ record : Decryptions, outcome = .ok record ∧
        (∀ (i : ℕ) (text : Cipher), (plan.texts k)[i]? = some text → text.pad.isResidue = true →
          ∃ item : Decryption, record.items[i]? = some (some item) ∧
            item.beta = text.pad ^ e.secretKey) ∧
        record.verify (plan.texts k) e.context = true) ∧
    (∀ name, (s name).tickets.entries.Sublist (h.household name).tickets.entries ∧
      ∀ held ∈ (h.household name).tickets.entries, held ∈ (s name).tickets.entries ∨
        ∃ k answer, ¬ plan.Complete h k ∧ h.Outstanding name k answer ∧
          held.1 = answer.batchId) ∧
    ((∀ k, plan.Complete h k) → ∀ name, (h.household name).tickets = (s name).tickets) := by
  obtain ⟨hbooks, hrecords⟩ := Plan.books_and_records hreach
  refine ⟨fun k => hrecords.isSome_outcome?_iff, ?_, ?_, ?_⟩
  · intro k outcome houtcome
    by_cases htexts : plan.texts k = []
    · rw [Plan.outcome?, htexts] at houtcome
      cases houtcome
      rw [htexts]
      exact ⟨fun _ => rfl, {}, rfl, by simp, rfl⟩
    · obtain ⟨coefficients, hbacking, hsecret, hshares, hpos⟩ :=
        backing_of_dealt hdealt (hnew k) (hstaff k)
      rw [hsecret, ← (Decryptor.new_eq_ok (hnew k)).1]
      exact hrecords.decrypted_of_outcome? htexts hbacking hshares hpos (hsize k) houtcome
  · intro name
    refine ⟨(hbooks name).sublist, fun held hheld => ?_⟩
    rcases (hbooks name).mem_or_waits hheld with hstart | ⟨k, answer, hout, hid⟩
    · exact Or.inl hstart
    · refine Or.inr ⟨k, answer, ?_, hout, hid⟩
      exact fun hcomplete => hrecords.not_outstanding hcomplete name answer hout
  · intro hall name
    apply (hbooks name).tickets_eq
    exact fun k => hrecords.not_outstanding (hall k) name

end Dealt

namespace Overlap

/-! Two batches, one for the first two of three guardians and the other for the last two. -/

def names (k : Bool) : List String :=
  bif k then [Dealer.guardianId 2, Dealer.guardianId 3]
  else [Dealer.guardianId 1, Dealer.guardianId 2]

def texts (k : Bool) : List Cipher :=
  bif k then [.elgamal ⟨genPow ⟨5⟩, .one⟩]
  else [.elgamal ⟨genPow ⟨6⟩, .one⟩, .elgamal ⟨⟨0⟩, .one⟩]

/-- The trustees draw another seed for the other batch. -/
def circumstances (k : Bool) (_ : String) : Circumstances :=
  { prompt with seed := bif k then ⟨7⟩ else ⟨8⟩, candidates := [⟨1⟩, ⟨2⟩] }

theorem ample (k : Bool) (name : String) {holder : KeyHolder}
    (htickets : holder.tickets = { ttl := 60 }) :
    (circumstances k name).Ample holder [false, true].length where
  punctual := rfl
  openedAt := by
    rw [htickets]
    exact (by decide : 2 < 60)
  challengedAt := by
    rw [htickets]
    exact (by decide : 5 < 60)
  nodup := (by decide : [BatchId.mk 1, ⟨2⟩].Nodup)
  valid := (by decide : .none ∉ [BatchId.mk 1, ⟨2⟩])
  room := by
    rw [htickets]
    rfl

theorem exists_decryptors :
    ∃ (e : DealtElection) (d : Bool → Decryptor) (trustees : Bool → List TrusteeProfile),
      (Dealer.generate countUp "manifest" 3 2 60).run 0 = some (.ok e, 12) ∧ e.secretKey = ⟨9⟩ ∧
        ∀ k, Decryptor.new e.context e.roster (trustees k) {} = .ok (d k) ∧
          (d k).trustees.map (·.id) = names k ∧ e.Staffs e.household (trustees k) ∧
            ∀ t ∈ (d k).trustees, (e.household t.id).tickets = { ttl := 60 } := by
  obtain ⟨e, hdealt, hsecret, hids⟩ := exists_election "manifest"
  have hnodup : (e.trustees.map (·.profile.id)).Nodup := by
    rw [hids]
    simp [Dealer.guardianId_injective.eq_iff]
  have hmembers : ∀ k, ∃ us : List KeyHolder, us.Sublist e.trustees ∧
      us.map (·.profile.id) = names k := by
    intro k
    cases k with
    | false =>
      refine ⟨e.trustees.take 2, List.take_sublist _ _, ?_⟩
      rw [List.map_take, hids]
      rfl
    | true =>
      refine ⟨e.trustees.drop 1, List.drop_sublist _ _, ?_⟩
      rw [List.map_drop, hids]
      rfl
  choose us hsublist hnames using hmembers
  have hquorum : ∀ k, (2 : UInt32).toNat ≤ (us k).length := by
    intro k
    rw [← List.length_map (·.profile.id), hnames]
    cases k <;> exact le_rfl
  choose d hnew hstaff htickets using fun k => exists_decryptor hdealt (hsublist k).subset
    (hnodup.sublist ((hsublist k).map _)) (hquorum k) {}
  refine ⟨e, d, _, hdealt, hsecret, fun k => ⟨hnew k, ?_, hstaff k, htickets k⟩⟩
  rw [← hnames, (Decryptor.new_eq_ok (hnew k)).2.2.1, List.map_map]
  rfl

end Overlap

/-- Two sessions wait for the second guardian at once, each beside another one. -/
theorem concurrent_sessions_undisturbed_overlapping :
    ∃ (e : DealtElection) (plan : Plan Bool) (h h' : Plan.State Bool), e.secretKey = ⟨9⟩ ∧
      (plan.decryptor false).trustees.map (·.id) = [Dealer.guardianId 1, Dealer.guardianId 2] ∧
      (plan.decryptor true).trustees.map (·.id) = [Dealer.guardianId 2, Dealer.guardianId 3] ∧
      Relation.ReflTransGen (Plan.Step plan) (Plan.start e.household) h ∧
        Relation.ReflTransGen (Plan.Step plan) h h' ∧
        (∀ k, ∃ answer, h.Outstanding (Dealer.guardianId 2) k answer) ∧
        (∀ k, plan.texts k ≠ [] ∧ ∃ record, plan.outcome? h' k = some (.ok record) ∧
          record.verify (plan.texts k) e.context = true) ∧
        ∀ name, (h'.household name).tickets = (e.household name).tickets := by
  obtain ⟨e, d, trustees, hdealt, hsecret, hmembers⟩ := Overlap.exists_decryptors
  have hnames : ∀ k, (d k).trustees.map (·.id) = Overlap.names k := fun k => (hmembers k).2.1
  have htexts : ∀ k, Overlap.texts k ≠ [] := by decide
  obtain ⟨h, h', hreach, hreach', hwait, hcomplete⟩ :=
    @Plan.exists_overlap Bool _ ⟨d, Overlap.texts, Overlap.circumstances⟩ e.household [false, true]
      (by decide) (by decide) htexts
        fun k t ht => Overlap.ample k t.id ((hmembers k).2.2.2 t ht)
  obtain ⟨hends, houtcomes, -, hleft⟩ := concurrent_sessions_undisturbed hdealt
    (fun k => (hmembers k).1) (fun k => (hmembers k).2.2.1)
      (by decide : ∀ k, (Overlap.texts k).length ≤ UInt64.size) (hreach.trans hreach')
  refine ⟨e, _, h, h', hsecret, hnames false, hnames true, hreach, hreach', ?_, ?_,
    hleft hcomplete⟩
  · intro k
    obtain ⟨t, ht, hid⟩ : ∃ t ∈ (d k).trustees, t.id = Dealer.guardianId 2 := by
      rw [← List.mem_map, hnames]
      cases k <;> simp [Overlap.names]
    rw [← hid]
    exact hwait k t ht
  · intro k
    obtain ⟨outcome, houtcome⟩ := Option.isSome_iff_exists.1 ((hends k).2 (hcomplete k))
    obtain ⟨-, record, rfl, -, hverify⟩ := houtcomes k outcome houtcome
    exact ⟨htexts k, record, houtcome, hverify⟩

end ThresholdElGamal
