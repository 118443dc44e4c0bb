import ThresholdElGamal.Ballot.Opening
import ThresholdElGamal.Proofs.Ciphertext.DiscreteLog
import ThresholdElGamal.Proofs.Decryption.HonestSessions

/-! # Opening the items of a session

A session with an honest quorum hands out, for every ciphertext, what a single holder of the secret
key would compute, and reasons against the pads outside the subgroup. The items are taken up in the
order of the ciphertexts, so each selection is opened with its own: to the least count within the
bound, or with a problem.
-/

namespace ThresholdElGamal

open Session

namespace Opening

/-- A single holder of the secret key, with what it has against pads outside the subgroup. -/
structure Opener where
  context : ElectionContext
  secretKey : Exponent
  /-- The largest count that is looked for. -/
  bound : UInt32
  reasons : List String

theorem getElem?_pending (record : Decryptions) (i : ℕ) :
    (pending record)[i]? = record.items[i]?.map (i, ·) := by
  rw [pending, List.getElem?_map, List.getElem?_zipIdx, Option.map_map, zero_add]
  rfl

namespace Opener

variable (o : Opener)

/-- The item that a session hands out for a ciphertext. -/
inductive Delivers (flagged : Flags) : Cipher → ℕ × Option Decryption → Prop where
  | decrypted {text : Cipher} {position : ℕ} {decryption : Decryption} :
      text.pad.isResidue = true → decryption.beta = text.pad ^ o.secretKey →
        decryption.verify text o.context = true →
          Delivers flagged text (position, some decryption)
  | flagged {text : Cipher} {position : ℕ} :
      text.pad.isResidue = false → flagged.get? position = some o.reasons →
        Delivers flagged text (position, none)

/-- The pad is in the subgroup, and behind the mask is a count within the bound. -/
def OpensSelection (ciphertext : Ciphertext) : Prop :=
  ciphertext.pad.isResidue = true ∧ ∃ count ≤ o.bound.toNat,
    ciphertext.decrypt o.secretKey = o.context.jointPublicKey.powNat count

instance (ciphertext : Ciphertext) : Decidable (o.OpensSelection ciphertext) :=
  inferInstanceAs (Decidable (_ ∧ _))

def selectionProblems (ciphertext : Ciphertext) : List SelectionProblem :=
  if ciphertext.pad.isResidue = false then o.reasons.map .flagged
  else if o.OpensSelection ciphertext then [] else [.noPlaintext o.bound]

def selectionsProblems (selections : List EncryptedSelection) : List ContestProblem :=
  selections.flatMap fun s => (o.selectionProblems s.ciphertext).map (.selection s.selectionId)

/-- The opened selection is the encrypted one with its least count. -/
structure SelectionOpened (s : EncryptedSelection) (t : DecryptedSelection) : Prop where
  selectionId : t.selectionId = s.selectionId
  ciphertext : t.ciphertext = s.ciphertext
  count : o.context.jointPublicKey.IsLog (s.ciphertext.decrypt o.secretKey) t.tally.toNat
  bounded : t.tally ≤ o.bound
  value : t.value = s.ciphertext.decrypt o.secretKey
  beta : t.decryption.beta = s.ciphertext.pad ^ o.secretKey
  proof : t.decryption.verify (.elgamal s.ciphertext) o.context = true

variable {o} {flagged : Flags} {ciphertext : Ciphertext} {s : EncryptedSelection}

theorem selectionProblems_eq_nil (hreasons : o.reasons ≠ []) :
    o.selectionProblems ciphertext = [] ↔ o.OpensSelection ciphertext := by
  rw [selectionProblems]
  split
  · next h => simp [hreasons, OpensSelection, h]
  · split <;> simp_all

theorem toNat_ofNat_of_le {n : ℕ} (h : n ≤ o.bound.toNat) : (UInt32.ofNat n).toNat = n :=
  UInt32.toNat_ofNat_of_lt' (h.trans_lt o.bound.toNat_lt)

theorem exists_tally (h : o.OpensSelection ciphertext) : ∃ tally ≤ o.bound,
    o.context.jointPublicKey.IsLog (ciphertext.decrypt o.secretKey) tally.toNat := by
  obtain ⟨-, count, hcount, hpow⟩ := h
  obtain ⟨e, he, hlog⟩ := Element.exists_isLog hpow.symm
  have htoNat := toNat_ofNat_of_le (he.trans hcount)
  refine ⟨.ofNat e, ?_, ?_⟩
  · rw [UInt32.le_iff_toNat_le, htoNat]
    exact he.trans hcount
  · rwa [htoNat]

theorem SelectionOpened.defects {t : DecryptedSelection} (h : o.SelectionOpened s t) :
    t.defects o.context = [] := by
  have hvalue : t.value = t.ciphertext.unmask t.decryption.beta := by
    rw [h.value, h.ciphertext, h.beta, Ciphertext.decrypt]
  have hcount : t.value = o.context.jointPublicKey.powNat t.tally.toNat :=
    h.value.trans h.count.1.symm
  rw [DecryptedSelection.defects, h.ciphertext, h.proof, ← hcount, ← h.ciphertext, ← hvalue]
  simp

theorem selectionDefects_eq_nil {ss : List EncryptedSelection} {ts : List DecryptedSelection}
    (h : List.Forall₂ o.SelectionOpened ss ts) : selectionDefects o.context ts = [] := by
  induction h with
  | nil => rfl
  | cons hopened _ ih =>
    rw [selectionDefects, List.flatMap_cons, hopened.defects, List.map_nil, List.nil_append]
    exact ih

/-- The decryptor and its table look for counts as the holder does. -/
structure Looks (o : Opener) (d : Decryptor) (log : DiscreteLog) : Prop where
  bound : d.config.maxDlog = o.bound
  log : log.Exact o.context.jointPublicKey o.bound.toNat

section Selection

variable {d : Decryptor} {log : DiscreteLog} (hlooks : o.Looks d log)
include hlooks

theorem Looks.recover (c : Ciphertext) (beta : Element) :
    o.Looks d (Decryptor.recover log c beta).2 ∧
      ∀ tally, (Decryptor.recover log c beta).1 = some tally ↔
        tally ≤ o.bound ∧ o.context.jointPublicKey.IsLog (c.unmask beta) tally.toNat := by
  obtain ⟨hexact, hfind⟩ := hlooks.log.find (c.unmask beta)
  refine ⟨⟨hlooks.bound, hexact⟩, ?_⟩
  intro tally
  rw [Decryptor.recover, Option.map_eq_some_iff, UInt32.le_iff_toNat_le]
  constructor
  · rintro ⟨count, hcount, rfl⟩
    obtain ⟨hle, hlog⟩ := (hfind count).1 hcount
    rw [toNat_ofNat_of_le hle]
    exact ⟨hle, hlog⟩
  · rintro ⟨hle, hlog⟩
    exact ⟨tally.toNat, (hfind _).2 ⟨hle, hlog⟩, UInt32.ofNat_toNat⟩

theorem Looks.openSelection {position : ℕ} {item : Option Decryption}
    (h : o.Delivers flagged (.elgamal s.ciphertext) (position, item)) :
    o.Looks d (openSelection d flagged s position item log).2 ∧
      ((∃ t, (openSelection d flagged s position item log).1 = .ok t ∧ o.SelectionOpened s t ∧
          o.OpensSelection s.ciphertext) ∨
        ((openSelection d flagged s position item log).1 =
            .error (o.selectionProblems s.ciphertext) ∧ ¬ o.OpensSelection s.ciphertext)) := by
  cases h with
  | flagged hpad hreasons =>
    change s.ciphertext.pad.isResidue = false at hpad
    refine ⟨hlooks, Or.inr ⟨?_, ?_⟩⟩
    · rw [Opening.openSelection, hreasons, Option.getD_some, selectionProblems, if_pos hpad]
    · rintro ⟨hresidue, -⟩
      rw [hpad] at hresidue
      cases hresidue
  | @decrypted _ decryption hpad hbeta hproof =>
    change s.ciphertext.pad.isResidue = true at hpad
    change decryption.beta = s.ciphertext.pad ^ o.secretKey at hbeta
    obtain ⟨hafter, hrecover⟩ := hlooks.recover s.ciphertext decryption.beta
    have hunmask : s.ciphertext.unmask decryption.beta = s.ciphertext.decrypt o.secretKey := by
      rw [hbeta, Ciphertext.decrypt]
    rw [hunmask] at hrecover
    rw [Opening.openSelection]
    cases hfound : Decryptor.recover log s.ciphertext decryption.beta with
    | mk found after =>
      rw [hfound] at hafter hrecover
      cases found with
      | some tally =>
        obtain ⟨hbounded, hlog⟩ := (hrecover tally).1 rfl
        refine ⟨hafter, Or.inl ⟨_, rfl, ?_, hpad, tally.toNat, hbounded, hlog.1.symm⟩⟩
        exact ⟨rfl, rfl, hlog, hbounded, hunmask, hbeta, hproof⟩
      | none =>
        have hnone : ¬ o.OpensSelection s.ciphertext := by
          intro hopens
          obtain ⟨tally, hbounded, hlog⟩ := exists_tally hopens
          cases (hrecover tally).2 ⟨hbounded, hlog⟩
        refine ⟨hafter, Or.inr ⟨?_, hnone⟩⟩
        rw [selectionProblems, if_neg (by simp [hpad]), if_neg hnone, hlooks.bound]

end Selection

/-- What opening the selections in front of other ciphertexts yields. -/
structure SelectionsRead (o : Opener) (d : Decryptor) (flagged : Flags)
    (ss : List EncryptedSelection) (texts : List Cipher) (r : Selections) : Prop where
  looks : o.Looks d r.log
  rest : List.Forall₂ (o.Delivers flagged) texts r.rest
  problems : r.problems = o.selectionsProblems ss
  opened : r.problems = [] → List.Forall₂ o.SelectionOpened ss r.opened

theorem selectionsProblems_cons (s : EncryptedSelection) (ss : List EncryptedSelection) :
    o.selectionsProblems (s :: ss) =
      (o.selectionProblems s.ciphertext).map (.selection s.selectionId) ++
        o.selectionsProblems ss :=
  List.flatMap_cons

theorem Looks.openSelections (hreasons : o.reasons ≠ []) {d : Decryptor}
    {ss : List EncryptedSelection} {texts : List Cipher} {rest : Pending} {log : DiscreteLog}
    (hlooks : o.Looks d log) (h : List.Forall₂ (o.Delivers flagged)
      (ss.map (fun s => .elgamal s.ciphertext) ++ texts) rest) :
    o.SelectionsRead d flagged ss texts (openSelections d flagged ss rest log) := by
  induction ss generalizing rest log with
  | nil => exact ⟨hlooks, h, rfl, fun _ => .nil⟩
  | cons s ss ih =>
    cases h with
    | @cons _ item _ rest hitem htail =>
      obtain ⟨position, item⟩ := item
      have hselection := hlooks.openSelection hitem
      rw [Opening.openSelections]
      generalize Opening.openSelection d flagged s position item log = found at hselection
      obtain ⟨result, after⟩ := found
      obtain ⟨hafter, hresult⟩ := hselection
      obtain ⟨hlooks', hrest, hproblems, hopened⟩ := ih hafter htail
      rcases hresult with ⟨t, rfl, hopens, hok⟩ | ⟨rfl, hfails⟩
      · have hnil := (selectionProblems_eq_nil hreasons).2 hok
        refine ⟨hlooks', hrest, ?_, fun hno => .cons hopens (hopened hno)⟩
        rw [selectionsProblems_cons, hnil]
        exact hproblems
      · have hne := mt (selectionProblems_eq_nil hreasons).1 hfails
        refine ⟨hlooks', hrest, ?_, ?_⟩
        · rw [selectionsProblems_cons, ← hproblems]
        · intro hno
          simp [hne] at hno

end Opener

/-- The decryptions of a session that ends well are opened with the table there is. -/
theorem decryptAndOpen_of_run {σ α : Type} {d : Decryptor} {transport : Transport (StateM σ)}
    {texts : List Cipher} {metrics : Metrics} {s : σ} {record : Decryptions}
    (h : ((run d transport metrics texts).run s).1.1 = .ok record) (log : DiscreteLog)
    (openResult : Decryptions → DiscreteLog → Except (List Problem) α × DiscreteLog) :
    ((decryptAndOpen d transport texts openResult ⟨metrics, log⟩).run s).1.1 =
      (openResult record log).1.mapError .plaintext := by
  rw [decryptAndOpen, run_bind]
  generalize (run d transport metrics texts).run s = outcome at h
  obtain ⟨⟨result, metrics'⟩, s'⟩ := outcome
  change result = .ok record at h
  subst h
  rfl

end Opening

open Opening

/-- The holder that the answering trustees of a dealt election stand in for. -/
def DealtElection.opener (e : DealtElection) (d : Decryptor) (c : String → Circumstances)
    (s : Household) : Opener where
  context := e.context
  secretKey := e.secretKey
  bound := d.config.maxDlog
  reasons := (d.trustees.filter fun t => (c t.id).answers (s t.id)).map flagReason

section Dealt

variable {σ : Type} {draw : StateT σ Option Exponent} {manifest : String} {n quorum : UInt32}
  {ttl : ℕ} {source rest : σ} {e : DealtElection} {trustees : List TrusteeProfile}
  {config : DecryptionConfig} {d : Decryptor} {s : Household} {c : String → Circumstances}
  (hdealt : (Dealer.generate draw manifest n quorum ttl).run source = some (.ok e, rest))
  (hnew : Decryptor.new e.context e.roster trustees config = .ok d)
  (hstaff : e.Staffs s trustees)
  (hquorum : d.context.quorum.toNat ≤
    (d.trustees.filter fun t => (c t.id).answers (s t.id)).length)
include hdealt hnew hstaff hquorum

theorem reasons_opener_ne_nil : (e.opener d c s).reasons ≠ [] := by
  obtain ⟨-, -, -, -, hpos⟩ := backing_of_dealt hdealt hnew hstaff
  intro hnil
  rw [List.map_eq_nil_iff.1 hnil, List.length_nil] at hquorum
  omega

omit hdealt hstaff hquorum in
theorem looks_opener (queries : List Element) :
    (e.opener d c s).Looks d (d.startLog.ask queries) := by
  refine ⟨rfl, ?_⟩
  rw [DealtElection.opener, ← (Decryptor.new_eq_ok hnew).1]
  exact (DiscreteLog.exact_start _ _).ask queries

/-- A session with an honest quorum delivers every ciphertext as the holder would decrypt it. -/
theorem exists_delivered (hfresh : Fresh d c s) (metrics : Metrics) (texts : List Cipher)
    (hsize : texts.length ≤ UInt64.size) :
    ∃ record : Decryptions, ((run d (Household.transport c) metrics texts).run s).1.1 = .ok record ∧
      List.Forall₂ ((e.opener d c s).Delivers record.flagged) texts (pending record) := by
  obtain ⟨coefficients, hbacking, hsecret, hshares, hpos⟩ := backing_of_dealt hdealt hnew hstaff
  by_cases htexts : texts = []
  · subst htexts
    exact ⟨{}, rfl, .nil⟩
  · obtain ⟨p, responses, hrun, hformed, hhonest, hne, hcount, hrows, haccepted⟩ :=
      exists_record hbacking hshares hpos hquorum hfresh hsize htexts metrics
    have hpads := isTorsion_of_honest htexts hhonest hne hsize
    have hverify : ∀ i text, texts[i]? = some text → p.flagged.contains i = false →
        (decryptionAt p responses d.context text i).verify text d.context = true := by
      refine (verify_publish hformed hrows).1 ?_
      refine verify_of_isTorsion hbacking hformed hcount haccepted hrows hpads ?_
      intro r hr i text htext hi
      rw [partialAt_of_honest htexts hhonest hr htext]
      exact (hpads i text htext hi).pow _
    refine ⟨_, hrun, List.forall₂_iff_zip.2 ⟨?_, ?_⟩⟩
    · simp [pending, length_items]
    · rintro text ⟨position, item⟩ hmem
      obtain ⟨i, hi⟩ := List.mem_iff_getElem?.1 hmem
      obtain ⟨htext, hitem⟩ := List.getElem?_zip_eq_some.1 hi
      have hflag := contains_of_honest htexts hhonest hne hsize htext
      rw [getElem?_pending, getElem?_items d.context hformed hrows, htext] at hitem
      simp only [Option.map_some, Option.some_inj, Prod.mk.injEq] at hitem
      obtain ⟨rfl, rfl⟩ := hitem
      cases hresidue : text.pad.isResidue with
      | false =>
        rw [hresidue, Bool.not_false] at hflag
        rw [if_pos hflag]
        refine .flagged hresidue ?_
        have hpad : (texts.map Cipher.pad)[i]? = some text.pad := by
          rw [List.getElem?_map, htext, Option.map_some]
        rw [DealtElection.opener, ← hhonest.trustees, List.map_map]
        exact get?_of_entries (flagged_of_honest htexts hhonest hne hsize) (by simpa using hsize)
          hpad hresidue
      | true =>
        rw [hresidue, Bool.not_true] at hflag
        rw [if_neg (by simp [hflag])]
        refine .decrypted hresidue ?_ ?_
        · rw [DealtElection.opener, hsecret]
          exact maskAt_of_honest htexts hhonest hshares hformed hbacking htext
            (.of_isResidue hresidue)
        · rw [DealtElection.opener, ← (Decryptor.new_eq_ok hnew).1]
          exact hverify i text htext hflag

end Dealt

end ThresholdElGamal
