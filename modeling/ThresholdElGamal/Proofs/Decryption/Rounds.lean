import ThresholdElGamal.Decryption.Session
import ThresholdElGamal.Proofs.Decryption.Acceptance

/-! # What the rounds of a session let through

A panel is formed by at least a quorum of the trustees, in their order, each with a contribution
for every ciphertext. Its weights are those of the session that its trustees form, whether they
were recomputed or are those of the whole list. A session that ends well has gone through both
rounds without a fault.
-/

namespace ThresholdElGamal

section Reads

variable {α β γ : Type} {f g : α → Option β} {l : List α}

theorem isSome_of_mapM {ys : List β} (h : l.mapM f = some ys) : ∀ x ∈ l, (f x).isSome = true := by
  induction l generalizing ys with
  | nil => simp
  | cons x l ih =>
    rw [List.mapM_cons] at h
    cases hx : f x with
    | none => simp [hx] at h
    | some y =>
      cases hl : l.mapM f with
      | none => simp [hx, hl] at h
      | some zs => exact List.forall_mem_cons.2 ⟨by simp [hx], ih hl⟩

theorem mapM_congr (h : ∀ x ∈ l, f x = g x) : l.mapM f = l.mapM g := by
  induction l with
  | nil => rfl
  | cons x l ih =>
    rw [List.forall_mem_cons] at h
    rw [List.mapM_cons, List.mapM_cons, h.1, ih h.2]

theorem mapM_eq_some {k : α → β} (h : ∀ x ∈ l, f x = some (k x)) : l.mapM f = some (l.map k) :=
  (mapM_congr h).trans List.mapM_pure

theorem mapM_of_forall₂ {R : α → γ → Prop} {f : α → Option β} {g : γ → β} {xs : List α}
    {zs : List γ} (h : List.Forall₂ R xs zs) (hread : ∀ x, ∀ z ∈ zs, R x z → f x = some (g z)) :
    xs.mapM f = some (zs.map g) := by
  induction h with
  | nil => rfl
  | cons hxz _ ih =>
    have htail := ih fun x z hz => hread x z (List.mem_cons_of_mem _ hz)
    rw [List.mapM_cons, hread _ _ List.mem_cons_self hxz, htail]
    rfl

theorem mapM_range {f : ℕ → Option β} {g : γ → β} {zs : List γ} {n : ℕ} (hlength : zs.length = n)
    (hread : ∀ i z, zs[i]? = some z → f i = some (g z)) :
    (List.range n).mapM f = some (zs.map g) := by
  have hpositions : List.Forall₂ (fun i z => zs[i]? = some z) (List.range n) zs := by
    rw [List.forall₂_iff_get]
    simp [hlength]
  exact mapM_of_forall₂ hpositions fun i z _ => hread i z

end Reads

namespace Session

variable {d : Decryptor} {n : ℕ} {p : Panel}

theorem eq_of_mem_zip {α β κ : Type} {key : α → κ} {xs : List α} {ys : List β} {x x' : α}
    {y y' : β} (hkeys : (xs.map key).Nodup) (h : (x, y) ∈ xs.zip ys) (h' : (x', y') ∈ xs.zip ys)
    (hkey : key x = key x') : x = x' ∧ y = y' := by
  simp only [List.mem_iff_getElem?, List.getElem?_zip_eq_some] at h h'
  obtain ⟨i, hx, hy⟩ := h
  obtain ⟨j, hx', hy'⟩ := h'
  have hi : i < (xs.map key).length := by
    rw [List.length_map]
    exact (List.getElem?_eq_some_iff.1 hx).1
  obtain rfl : i = j := by
    apply (List.getElem?_inj hi hkeys).1
    rw [List.getElem?_map, List.getElem?_map, hx, hx', Option.map_some, Option.map_some, hkey]
  rw [hx, Option.some_inj] at hx'
  rw [hy, Option.some_inj] at hy'
  exact ⟨hx', hy'⟩

/-- The responders among the trustees. -/
def respondersOf (n : ℕ) (ts : List TrusteeProfile) (replies : List (Reply PartialDecryptions)) :
    List Responder :=
  (ts.zip replies).filterMap fun (t, reply) => responder? n t reply

theorem assemble_eq_ok {replies : List (Reply PartialDecryptions)} :
    assemble d n replies = .ok p ↔
      (∀ tr ∈ d.trustees.zip replies, openingFaults n tr.1 tr.2 = []) ∧
        d.context.quorum.toNat ≤ (respondersOf n d.trustees replies).length ∧
          { responders := respondersOf n d.trustees replies
            weights :=
              if replies.any Reply.isSilent then
                Decryptor.weightsOf ((respondersOf n d.trustees replies).map (·.trustee))
              else d.fullWeights
            flagged := (respondersOf n d.trustees replies).foldl Responder.addFlags .empty } =
            p := by
  simp only [assemble, unlessProblems_eq_ok, List.append_eq_nil_iff, List.flatMap_eq_nil_iff,
    List.map_eq_nil_iff, problemUnless_eq_nil, decide_eq_true_eq, and_assoc]
  rfl

theorem mem_of_assemble_eq_error {replies : List (Reply PartialDecryptions)}
    {problems : List Problem} {problem : Problem} (h : assemble d n replies = .error problems)
    (hproblem : problem ∈ problems) :
    (∃ t reply, (t, reply) ∈ d.trustees.zip replies ∧
      ∃ fault ∈ openingFaults n t reply, problem = .trustee t.id fault) ∨
        ∃ answered, problem = .belowQuorum answered d.context.quorum := by
  obtain ⟨-, rfl⟩ := unlessProblems_eq_error.1 h
  rcases List.mem_append.1 hproblem with hfault | hquorum
  · obtain ⟨⟨t, reply⟩, hreply, hfault⟩ := List.mem_flatMap.1 hfault
    obtain ⟨fault, hmem, rfl⟩ := List.mem_map.1 hfault
    exact Or.inl ⟨t, reply, hreply, fault, hmem, rfl⟩
  · exact Or.inr ⟨_, eq_of_mem_problemUnless hquorum⟩

theorem trustee_of_responder? {t : TrusteeProfile} {reply : Reply PartialDecryptions}
    {r : Responder} (h : responder? n t reply = some r) :
    r.trustee = t ∧ r.answer.partials.length = n := by
  cases reply with
  | answered a =>
    simp only [responder?, Option.ite_none_right_eq_some, Option.some.injEq] at h
    obtain ⟨hlength, rfl⟩ := h
    exact ⟨rfl, hlength⟩
  | silent => cases h
  | crashed => cases h
  | refused e => cases h

theorem responder?_isSome {t : TrusteeProfile} {reply : Reply PartialDecryptions}
    (hfaults : openingFaults n t reply = []) (hsilent : reply.isSilent = false) :
    ∃ r, responder? n t reply = some r := by
  cases reply with
  | answered a =>
    by_cases hlength : a.partials.length = n
    · exact ⟨_, if_pos hlength⟩
    · simp [openingFaults, hlength] at hfaults
  | silent => cases hsilent
  | crashed => simp [openingFaults] at hfaults
  | refused e => simp [openingFaults] at hfaults

theorem respondersOf_sublist (ts : List TrusteeProfile)
    (replies : List (Reply PartialDecryptions)) :
    ((respondersOf n ts replies).map (·.trustee)).Sublist ts := by
  induction ts generalizing replies with
  | nil => simp [respondersOf]
  | cons t ts ih =>
    cases replies with
    | nil => simp [respondersOf]
    | cons reply replies =>
      simp only [respondersOf, List.zip_cons_cons, List.filterMap_cons]
      cases hr : responder? n t reply with
      | none => exact (ih replies).cons t
      | some r =>
        rw [List.map_cons, (trustee_of_responder? hr).1]
        exact (ih replies).cons_cons t

theorem respondersOf_full {ts : List TrusteeProfile} {replies : List (Reply PartialDecryptions)}
    (hlength : replies.length = ts.length)
    (hfaults : ∀ tr ∈ ts.zip replies, openingFaults n tr.1 tr.2 = [])
    (hsilent : replies.any Reply.isSilent = false) :
    (respondersOf n ts replies).map (·.trustee) = ts := by
  induction ts generalizing replies with
  | nil => simp [respondersOf]
  | cons t ts ih =>
    cases replies with
    | nil => simp at hlength
    | cons reply replies =>
      simp only [List.zip_cons_cons, List.forall_mem_cons, List.any_cons, Bool.or_eq_false_iff,
        List.length_cons, Nat.succ.injEq] at hfaults hsilent hlength
      obtain ⟨r, hr⟩ := responder?_isSome hfaults.1 hsilent.1
      have htail := ih hlength hfaults.2 hsilent.2
      simp only [respondersOf] at htail
      simp only [respondersOf, List.zip_cons_cons, List.filterMap_cons, hr, List.map_cons, htail,
        (trustee_of_responder? hr).1]

/-- Recomputed or not, the weights are those of the session that the responders form. -/
theorem weights_eq_weightsOf {replies : List (Reply PartialDecryptions)}
    (hlength : replies.length = d.trustees.length)
    (hfaults : ∀ tr ∈ d.trustees.zip replies, openingFaults n tr.1 tr.2 = []) :
    (if replies.any Reply.isSilent then
        Decryptor.weightsOf ((respondersOf n d.trustees replies).map (·.trustee))
      else d.fullWeights) =
      Decryptor.weightsOf ((respondersOf n d.trustees replies).map (·.trustee)) := by
  cases hsilent : replies.any Reply.isSilent with
  | true => rfl
  | false =>
    rw [respondersOf_full hlength hfaults hsilent]
    rfl

/-- The panel consists of a quorum of trustees that contributed to every ciphertext. -/
structure Panel.Formed (d : Decryptor) (n : ℕ) (p : Panel) : Prop where
  trustees : (p.responders.map (·.trustee)).Sublist d.trustees
  quorum : d.context.quorum.toNat ≤ p.responders.length
  weights : p.weights = Decryptor.weightsOf (p.responders.map (·.trustee))
  partials : ∀ r ∈ p.responders, r.answer.partials.length = n

theorem formed_of_assemble {replies : List (Reply PartialDecryptions)}
    (hlength : replies.length = d.trustees.length) (h : assemble d n replies = .ok p) :
    p.Formed d n := by
  obtain ⟨hfaults, hquorum, rfl⟩ := assemble_eq_ok.1 h
  refine ⟨respondersOf_sublist _ _, hquorum, weights_eq_weightsOf hlength hfaults, ?_⟩
  intro r hr
  obtain ⟨⟨t, reply⟩, -, hreply⟩ := List.mem_filterMap.1 hr
  exact (trustee_of_responder? hreply).2

theorem closingFaults_answered {r : Responder} {vs : List Exponent} (h : vs.length = n) :
    closingFaults n r (.answered ⟨r.answer.batchId, vs⟩) = [] := by
  simp [closingFaults, h]

theorem collect_eq_ok {replies : List (Reply ChallengeResponses)}
    {responses : List (List Exponent)} :
    collect p n replies = .ok responses ↔
      (∀ rr ∈ p.responders.zip replies, closingFaults n rr.1 rr.2 = []) ∧
        replies.filterMap responses? = responses := by
  simp only [collect, unlessProblems_eq_ok, List.flatMap_eq_nil_iff, List.map_eq_nil_iff]

theorem mem_of_collect_eq_error {replies : List (Reply ChallengeResponses)}
    {problems : List Problem} {problem : Problem} (h : collect p n replies = .error problems)
    (hproblem : problem ∈ problems) :
    ∃ r reply, (r, reply) ∈ p.responders.zip replies ∧
      ∃ fault ∈ closingFaults n r reply, problem = .trustee r.trustee.id fault := by
  obtain ⟨-, rfl⟩ := unlessProblems_eq_error.1 h
  obtain ⟨⟨r, reply⟩, hreply, hfault⟩ := List.mem_flatMap.1 hproblem
  obtain ⟨fault, hmem, rfl⟩ := List.mem_map.1 hfault
  exact ⟨r, reply, hreply, fault, hmem, rfl⟩

theorem responses?_isSome {r : Responder} {reply : Reply ChallengeResponses}
    (h : closingFaults n r reply = []) : ∃ vs, responses? reply = some vs ∧ vs.length = n := by
  cases reply with
  | answered a =>
    simp only [closingFaults, List.append_eq_nil_iff, problemUnless_eq_nil, decide_eq_true_eq] at h
    exact ⟨a.responses, rfl, h.2⟩
  | silent => simp [closingFaults] at h
  | crashed => simp [closingFaults] at h
  | refused e => simp [closingFaults] at h

theorem length_of_collect {replies : List (Reply ChallengeResponses)}
    {responses : List (List Exponent)} (hlength : replies.length = p.responders.length)
    (h : collect p n replies = .ok responses) :
    responses.length = p.responders.length ∧ ∀ vs ∈ responses, vs.length = n := by
  obtain ⟨hfaults, rfl⟩ := collect_eq_ok.1 h
  clear h
  generalize p.responders = rs at hlength hfaults ⊢
  induction replies generalizing rs with
  | nil => exact ⟨hlength, by simp⟩
  | cons reply replies ih =>
    cases rs with
    | nil => simp at hlength
    | cons r rs =>
      simp only [List.zip_cons_cons, List.forall_mem_cons] at hfaults
      obtain ⟨vs, hvs, hvslength⟩ := responses?_isSome hfaults.1
      obtain ⟨htail, hrows⟩ := ih rs (by simpa using hlength) hfaults.2
      rw [List.filterMap_cons_some hvs]
      exact ⟨by simpa using htail, List.forall_mem_cons.2 ⟨hvslength, hrows⟩⟩

theorem conclude_eq_ok {texts : List Cipher} {combined : List Combined}
    {replies : List (Reply ChallengeResponses)} {record : Decryptions} :
    conclude d p texts combined replies = .ok record ↔
      ∃ responses, collect p texts.length replies = .ok responses ∧
        (d.config.checkIndividualResponses = true →
          individualProblems d.roster p texts (p.challenges combined) responses = []) ∧
        publish p combined responses = record := by
  unfold conclude
  cases collect p texts.length replies with
  | error problems => simp
  | ok responses =>
    cases d.config.checkIndividualResponses <;> simp

theorem conclude_eq_error {texts : List Cipher} {combined : List Combined}
    {replies : List (Reply ChallengeResponses)} {problems : List Problem}
    (h : conclude d p texts combined replies = .error problems) :
    collect p texts.length replies = .error problems ∨
      ∃ responses, collect p texts.length replies = .ok responses ∧
        individualProblems d.roster p texts (p.challenges combined) responses = problems := by
  unfold conclude at h
  cases hcollect : collect p texts.length replies with
  | error ps =>
    rw [hcollect] at h
    cases h
    exact Or.inl rfl
  | ok responses =>
    rw [hcollect] at h
    obtain ⟨hne, hproblems⟩ := unlessProblems_eq_error.1 h
    split at hproblems
    · exact Or.inr ⟨responses, rfl, hproblems⟩
    · next hchecks => simp [hchecks] at hne

theorem mem_zip_of_collect {replies : List (Reply ChallengeResponses)}
    {responses : List (List Exponent)} (h : collect p n replies = .ok responses) {r : Responder}
    {vs : List Exponent} :
    (r, vs) ∈ p.responders.zip responses ↔
      ∃ answer, (r, .answered answer) ∈ p.responders.zip replies ∧ answer.responses = vs := by
  obtain ⟨hfaults, rfl⟩ := collect_eq_ok.1 h
  clear h
  generalize p.responders = rs at hfaults ⊢
  induction replies generalizing rs with
  | nil => simp
  | cons reply replies ih =>
    cases rs with
    | nil => simp
    | cons r' rs =>
      simp only [List.zip_cons_cons, List.forall_mem_cons] at hfaults
      cases reply with
      | answered a =>
        simp only [responses?, List.filterMap_cons, List.zip_cons_cons, List.mem_cons,
          Prod.mk.injEq, Reply.answered.injEq, ih rs hfaults.2]
        constructor
        · rintro (⟨rfl, rfl⟩ | ⟨answer, hanswer, hvs⟩)
          · exact ⟨a, Or.inl ⟨rfl, rfl⟩, rfl⟩
          · exact ⟨answer, Or.inr hanswer, hvs⟩
        · rintro ⟨answer, ⟨rfl, rfl⟩ | hanswer, rfl⟩
          · exact Or.inl ⟨rfl, rfl⟩
          · exact Or.inr ⟨answer, hanswer, rfl⟩
      | silent => simp [closingFaults] at hfaults
      | crashed => simp [closingFaults] at hfaults
      | refused e => simp [closingFaults] at hfaults

section Run

variable {σ α β : Type}

theorem run_bind (x : StateM σ α) (f : α → StateM σ β) (s : σ) :
    (x >>= f).run s = (f (x.run s).1).run (x.run s).2 := rfl

theorem length_mapM (f : α → StateM σ β) (l : List α) (s : σ) :
    ((l.mapM f).run s).1.length = l.length := by
  induction l generalizing s with
  | nil => rfl
  | cons x l ih =>
    rw [List.mapM_cons, run_bind, run_bind]
    exact congrArg Nat.succ (ih _)

/-- What every call of a round preserves, the round preserves. -/
theorem mapM_preserves {I : σ → Prop} {f : α → StateM σ β} {l : List α}
    (hstep : ∀ x ∈ l, ∀ s, I s → I ((f x).run s).2) {s : σ} (h : I s) :
    I ((l.mapM f).run s).2 := by
  induction l generalizing s with
  | nil => exact h
  | cons x l ih =>
    rw [List.forall_mem_cons] at hstep
    rw [List.mapM_cons, run_bind, run_bind]
    exact ih hstep.2 (hstep.1 s h)

theorem exists_call {f : α → StateM σ β} {l : List α} {s : σ} {x : α} {y : β}
    (h : (x, y) ∈ l.zip ((l.mapM f).run s).1) :
    ∃ before after, l = before ++ x :: after ∧ y = ((f x).run ((before.mapM f).run s).2).1 ∧
      ((l.mapM f).run s).2 =
        ((after.mapM f).run ((f x).run ((before.mapM f).run s).2).2).2 := by
  induction l generalizing s with
  | nil => cases h
  | cons x' l ih =>
    rw [List.mapM_cons, run_bind, run_bind] at h ⊢
    change (x, y) ∈ (x' :: l).zip (_ :: ((l.mapM f).run ((f x').run s).2).1) at h
    rw [List.zip_cons_cons, List.mem_cons, Prod.mk.injEq] at h
    rcases h with ⟨rfl, rfl⟩ | htail
    · exact ⟨[], l, rfl, rfl, rfl⟩
    · obtain ⟨before, after, rfl, hy, hstate⟩ := ih htail
      refine ⟨x' :: before, after, rfl, ?_, ?_⟩
      · rw [List.mapM_cons, run_bind, run_bind]
        exact hy
      · rw [List.mapM_cons, run_bind, run_bind]
        exact hstate

/-- Every call is made, in a state that the calls to others lead to. -/
theorem exists_reply {I : σ → Prop} {f : α → StateM σ β} {l : List α} {x : α} (hx : x ∈ l)
    (hstep : ∀ y ∈ l, y ≠ x → ∀ s, I s → I ((f y).run s).2) {s : σ} (h : I s) :
    ∃ s', I s' ∧ (x, ((f x).run s').1) ∈ l.zip ((l.mapM f).run s).1 := by
  induction l generalizing s with
  | nil => cases hx
  | cons y l ih =>
    rw [List.mapM_cons, run_bind, run_bind]
    change ∃ s', I s' ∧ (x, _) ∈ (y :: l).zip (_ :: ((l.mapM f).run ((f y).run s).2).1)
    rw [List.forall_mem_cons] at hstep
    by_cases hyx : y = x
    · subst hyx
      exact ⟨s, h, List.mem_cons_self⟩
    · obtain ⟨s', hs', hmem⟩ := ih (List.mem_of_ne_of_mem (Ne.symm hyx) hx) hstep.2
        (hstep.1 hyx s h)
      exact ⟨s', hs', List.mem_cons_of_mem _ hmem⟩

variable (d) (transport : Transport (StateM σ)) (metrics : Metrics) (texts : List Cipher) (s : σ)

theorem run_outcome (htexts : texts ≠ []) :
    ((run d transport metrics texts).run s).1.1 =
      match assemble d texts.length ((askOpening d transport texts).run s).1 with
      | .error problems => .error problems
      | .ok p =>
        conclude d p texts (p.combine d.context texts)
          ((askClosing p transport (p.combine d.context texts)).run
            ((askOpening d transport texts).run s).2).1 := by
  have hempty : texts.isEmpty = false := List.isEmpty_eq_false_iff.2 htexts
  simp only [run, hempty, Bool.false_eq_true, if_false]
  split
  · next problems h =>
    rw [run_bind, h]
    rfl
  · next p h =>
    rw [run_bind, h, run_bind]
    rfl

variable {d transport metrics texts s}

/-- A session that ends well formed a panel, and concluded with the answers of round two. -/
theorem conclude_of_run (htexts : texts ≠ []) {record : Decryptions}
    (hrun : ((run d transport metrics texts).run s).1.1 = .ok record) :
    ∃ p, assemble d texts.length ((askOpening d transport texts).run s).1 = .ok p ∧
      p.Formed d texts.length ∧
        conclude d p texts (p.combine d.context texts)
          ((askClosing p transport (p.combine d.context texts)).run
            ((askOpening d transport texts).run s).2).1 = .ok record := by
  rw [run_outcome d transport metrics texts s htexts] at hrun
  cases hassemble : assemble d texts.length ((askOpening d transport texts).run s).1 with
  | error problems =>
    rw [hassemble] at hrun
    cases hrun
  | ok p =>
    rw [hassemble] at hrun
    exact ⟨p, rfl, formed_of_assemble (length_mapM _ _ _) hassemble, hrun⟩

end Run

end Session

end ThresholdElGamal
