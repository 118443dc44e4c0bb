import ThresholdElGamal.Proofs.Decryption.HonestSessions

/-! # Sessions with arbitrary trustees

Whatever the trustees answer, a session that checks the single responses lets through only
responses that fit the commitments under the share keys. A share key lies in the subgroup, but
nothing asks this of a contribution, so the stray parts of the contributions remain: the record
verifies when these leave the challenges as they are.
-/

namespace ThresholdElGamal

namespace Session

variable {σ : Type} {transport : Transport (StateM σ)} {metrics : Metrics} {s : σ}
  {d : Decryptor} {texts : List Cipher} {record : Decryptions}
  {coefficients : List (List Exponent)}

/-- A session that checks the single responses ends well only with responses that fit. -/
theorem accepted_of_run (hbacking : d.Backing coefficients)
    (hchecks : d.config.checkIndividualResponses = true) (htexts : texts ≠ [])
    (hrun : ((run d transport metrics texts).run s).1.1 = .ok record) :
    ∃ p responses, assemble d texts.length ((askOpening d transport texts).run s).1 = .ok p ∧
      p.Formed d texts.length ∧ responses.length = p.responders.length ∧
        (∀ vs ∈ responses, vs.length = texts.length) ∧
          Accepted coefficients p d.context texts responses ∧
            record = publish p (p.combine d.context texts) responses := by
  obtain ⟨p, hassemble, hformed, hconclude⟩ := conclude_of_run htexts hrun
  obtain ⟨responses, hcollect, hproblems, rfl⟩ := conclude_eq_ok.1 hconclude
  obtain ⟨hcount, hrows⟩ := length_of_collect (length_askClosing hformed _) hcollect
  exact ⟨p, responses, hassemble, hformed, hcount, hrows,
    (individualProblems_eq_nil hbacking hformed hrows).1 (hproblems hchecks), rfl⟩

end Session

section Checked

open Session

variable {σ : Type} {transport : Transport (StateM σ)} {metrics : Metrics} {s : σ}
  {manifest : String} {r : Roster} {quorum : UInt32} {context : ElectionContext}
  {trustees : List TrusteeProfile} {config : DecryptionConfig} {d : Decryptor}
  {texts : List Cipher} {record : Decryptions}

/-- Whatever the trustees answer, the record of a session that checks the single responses
verifies exactly when the stray parts of the contributions leave the challenges as they are, and
so it does when the contributions are in the subgroup. -/
theorem checked_session_verifies_iff
    (hderive : ElectionContext.derive manifest r quorum = .ok context)
    (hnew : Decryptor.new context r trustees config = .ok d)
    (hchecks : config.checkIndividualResponses = true)
    (hpads : ∀ text ∈ texts, text.pad.isResidue = true)
    (hrun : ((run d transport metrics texts).run s).1.1 = .ok record) :
    ∃ p : Panel,
      (texts ≠ [] →
        assemble d texts.length ((askOpening d transport texts).run s).1 = .ok p) ∧
      (record.verify texts context = true ↔
        ∀ i text, texts[i]? = some text → record.isFlagged i = false →
          p.challengeAt context text i (p.strayAt (p.challengeAt context text i .one) i) =
            p.challengeAt context text i .one) ∧
      ((∀ x ∈ p.responders, ∀ m ∈ x.answer.partials, m.mi.isResidue = true) →
        record.verify texts context = true) := by
  obtain ⟨coefficients, hbacking⟩ := Decryptor.exists_backing hderive hnew
  obtain ⟨rfl, -, -, rfl⟩ := Decryptor.new_eq_ok hnew
  by_cases htexts : texts = []
  · subst htexts
    cases hrun
    exact ⟨⟨[], [], .empty⟩, by simp, by simp [Decryptions.verify], fun _ => rfl⟩
  · obtain ⟨p, responses, hassemble, hformed, hcount, hrows, haccepted, rfl⟩ :=
      accepted_of_run hbacking hchecks htexts hrun
    have htorsion : ∀ i text, texts[i]? = some text → p.flagged.contains i = false →
        text.pad.IsTorsion := fun i text htext _ =>
      .of_isResidue (hpads text (List.mem_of_getElem? htext))
    refine ⟨p, fun _ => hassemble, ?_, ?_⟩
    · exact verify_iff_stray hbacking hformed hcount haccepted hrows htorsion
    · intro hresidues
      refine verify_of_isTorsion hbacking hformed hcount haccepted hrows htorsion ?_
      intro x hx i text htext _
      have hi : i < x.answer.partials.length := by
        rw [hformed.partials x hx]
        exact (List.getElem?_eq_some_iff.1 htext).1
      have hmem : x.partialAt i ∈ x.answer.partials :=
        List.mem_of_getElem? (getElem?_getD _ hi)
      exact .of_isResidue (hresidues x hx _ hmem)

theorem checked_session_verifies_iff_two_of_three :
    ∃ (e : DealtElection) (d : Decryptor) (record : Decryptions), e.secretKey = ⟨9⟩ ∧
      ((run d (Household.transport straggling) {} [.elgamal ⟨genPow ⟨5⟩, .one⟩]).run
          e.household).1.1 = .ok record ∧
        record.verify [.elgamal ⟨genPow ⟨5⟩, .one⟩] e.context = true := by
  obtain ⟨e, d, hdealt, hsecret, hnew, hstaff, -, hquorum, hfresh⟩ :=
    exists_committee "manifest" {}
  obtain ⟨⟨_, hwith⟩, -, -⟩ := Dealer.dealtWith_of_generate hdealt
  obtain ⟨m, hderive⟩ := hwith.derived
  obtain ⟨_, hbacking, -, hshares, hpos⟩ := backing_of_dealt hdealt hnew hstaff
  have htexts : [Cipher.elgamal ⟨genPow ⟨5⟩, .one⟩] ≠ [] := List.cons_ne_nil _ _
  have hpads : ∀ text ∈ [Cipher.elgamal ⟨genPow ⟨5⟩, .one⟩], text.pad.isResidue = true := by
    intro text htext
    obtain rfl := List.mem_singleton.1 htext
    exact isResidue_genPow ⟨5⟩
  obtain ⟨_, _, hrun, -⟩ :=
    exists_record hbacking hshares hpos hquorum hfresh (by decide) htexts {}
  obtain ⟨p, hassemble, -, hverify⟩ := checked_session_verifies_iff hderive hnew rfl hpads hrun
  obtain ⟨_, hassemble', hhonest⟩ := exists_honest htexts hquorum
  rw [hassemble htexts, Except.ok.injEq] at hassemble'
  subst hassemble'
  refine ⟨e, d, _, hsecret, hrun, hverify ?_⟩
  intro x hx m hm
  obtain ⟨u, hdecrypt, -⟩ := hhonest.decrypted x hx
  rw [(KeyHolder.decrypt_eq_some (by simp) hdecrypt).1] at hm
  obtain rfl : m = .ofShare _ _ (Cipher.pad (.elgamal ⟨genPow ⟨5⟩, .one⟩)) := by simpa using hm
  exact (isTorsion_genPow ⟨5⟩).isResidue_pow _

end Checked

namespace Forged

/-! Two guardians with two coefficients each. The trustee of the second one sends the negatives of
its part of the mask and of its second commitment, and follows the protocol otherwise. -/

open Session

def rows : List (List Exponent) := [[⟨11⟩, ⟨22⟩], [⟨33⟩, ⟨44⟩]]

def roster : Roster where
  guardians := Dealer.guardians rows rows
  accepted := Dealer.problems_guardians rfl (by decide) (by decide) (by decide)

def context : ElectionContext where
  numberOfGuardians := UInt32.ofNat roster.size
  quorum := 2
  parameterBaseHash := ElectionContext.parameterHash
  electionBaseHash := ElectionContext.electionHash ElectionContext.parameterHash "manifest"
    (UInt32.ofNat roster.size) 2
  extendedBaseHash := ElectionContext.extendedHash
    (ElectionContext.electionHash ElectionContext.parameterHash "manifest"
      (UInt32.ofNat roster.size) 2) roster.jointPublicKey roster.guardians
  jointPublicKey := roster.jointPublicKey

def trustees : List TrusteeProfile :=
  [⟨Dealer.guardianId 1, 1, genPow ⟨11⟩⟩, ⟨Dealer.guardianId 2, 2, genPow ⟨33⟩⟩]

def decryptor : Decryptor := ⟨context, roster, trustees, {}, by decide +kernel⟩

def negate (a : Element) : Element := ⟨modulus - a.val⟩

def share (t : TrusteeProfile) : Exponent := Dealer.keyShare rows t.xCoordinate

def nonce (t : TrusteeProfile) : Exponent := ⟨100 + t.xCoordinate.toNat⟩

def contribution (t : TrusteeProfile) (pad : Element) : PartialDecryption :=
  let m := PartialDecryption.ofShare (share t) (nonce t) pad
  if t.xCoordinate = 2 then ⟨negate m.mi, m.a, negate m.b⟩ else m

def transport : Transport (StateM Unit) where
  decrypt t pads := pure (.answered ⟨⟨1⟩, pads.map (contribution t), []⟩)
  challenge t id challenges := pure (.answered ⟨id, challenges.map ((share t).respond (nonce t))⟩)

def text : Cipher := .elgamal ⟨genPow ⟨5⟩, .generator⟩

def outcome : Except (List Problem) Decryptions :=
  ((run decryptor transport {} [text]).run ()).1.1

theorem derive_eq : ElectionContext.derive "manifest" roster 2 = .ok context :=
  unlessProblems_eq_ok.2 ⟨Dealer.problems_context rfl rfl (by decide) (by decide) (by decide)
    (by decide) (by decide), rfl⟩

set_option maxRecDepth 100000 in
/-- The challenge is even, so the signs cancel in the single check, but not in the proof. -/
theorem exists_record : ∃ record item, outcome = .ok record ∧
    record.guardianIds = ["guardian-1", "guardian-2"] ∧ record.items = [some item] ∧
      item.verify text context = false :=
  Decryptions.exists_item_of_verdict (by decide +kernel)

end Forged

/-- A session that checks the single responses lets through an item that does not verify. -/
theorem not_checked_session_verifies :
    ElectionContext.derive "manifest" Forged.roster 2 = .ok Forged.context ∧
      Decryptor.new Forged.context Forged.roster Forged.trustees {} = .ok Forged.decryptor ∧
      Forged.decryptor.config.checkIndividualResponses = true ∧
      Forged.text.pad.isResidue = true ∧
      ∃ record item, Forged.outcome = .ok record ∧ record.items = [some item] ∧
        item.verify Forged.text Forged.context = false := by
  obtain ⟨record, item, hrun, -, hitems, hverify⟩ := Forged.exists_record
  exact ⟨Forged.derive_eq, dif_pos Forged.decryptor.accepted, rfl, isResidue_genPow ⟨5⟩, record,
    item, hrun, hitems, hverify⟩

end ThresholdElGamal
