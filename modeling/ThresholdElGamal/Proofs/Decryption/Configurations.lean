import ThresholdElGamal.Proofs.Decryption.HonestSessions

/-! # Which accepted configurations are sound

A decryptor is accepted when the joint key of its context is that of its roster and its trustees
stand for guardians of the roster. Nothing relates the quorum of the context to the number of
coefficients behind the roster. Members that hold the shares of the roster prove the power of the
key that their share keys interpolate to, which is the joint key when there are as many of them as
coefficients; otherwise a verifier recomputes a commitment that is off by a power of the quotient.
-/

namespace ThresholdElGamal

namespace Element

variable {x y : Element}

theorem mul_pow_mul_div_pow (hy : y.residue ≠ 0) (x z : Element) (w : Exponent) :
    x * y ^ w * (z / y) ^ w = x * z ^ w := by
  apply ext_residue (mul_lt _ _) (mul_lt _ _)
  have hpow : y.residue ^ w.val ≠ 0 := pow_ne_zero _ hy
  simp only [residue_mul, residue_pow, residue_div, div_pow]
  field_simp

theorem genPow_div_genPow (v : Exponent) {w : Exponent} (hw : w.val < order) :
    genPow v / genPow w = genPow (v - w) := by
  have hne : (genPow w).residue ≠ 0 := IsTorsion.residue_ne_zero (isTorsion_genPow w)
  have hsum : genPow (v - w) * genPow w = genPow v := by
    rw [genPow_mul_genPow]
    apply genPow_congr
    rw [Exponent.residue_add, Exponent.residue_sub_of_lt hw, sub_add_cancel]
  apply ext_residue (div_lt _ _) (pow_lt _ _)
  rw [residue_div, ← hsum, residue_mul, mul_div_cancel_right₀ _ hne]
  rfl

theorem div_pow_eq_one (hx : x.isResidue = true) (hy : y.isResidue = true) (w : Exponent) :
    (x / y) ^ w = one ↔ x = y ∨ w.residue = 0 := by
  obtain ⟨v, rfl⟩ := exists_genPow hx
  obtain ⟨u, hu, rfl⟩ := exists_genPow_lt hy
  rw [genPow_div_genPow v hu, genPow_pow, ← genPow_zero, genPow_inj, genPow_inj]
  simp [Exponent.residue_sub_of_lt hu, sub_eq_zero]

end Element

namespace Roster

variable (r : Roster)

def coordinates (ids : List String) : List UInt32 := (ids.filterMap r.get?).map (·.xCoordinate)

/-- The public key that the share keys at some coordinates interpolate to. -/
def interpolatedKey (xs : List UInt32) : Element :=
  .prod (xs.map fun x => jointValue r.guardians x ^ lagrangeWeight x xs)

end Roster

namespace Commits

variable {coefficients : List (List Exponent)} {r : Roster} {xs : List UInt32}

theorem interpolatedKey (h : Commits r.guardians coefficients) (xs : List UInt32) :
    r.interpolatedKey xs = genPow (Exponent.sum (xs.map fun x =>
      Dealer.keyShare coefficients x * lagrangeWeight x xs)) := by
  simp only [Roster.interpolatedKey, h.jointValue, genPow_pow, ← prod_genPow, List.map_map]
  rfl

theorem interpolatedKey_eq (h : Commits r.guardians coefficients)
    (hrows : ∀ as ∈ coefficients, as.length ≤ xs.length) (hxs : xs.Nodup) :
    r.interpolatedKey xs = r.jointPublicKey := by
  rw [h.interpolatedKey, h.jointPublicKey]
  apply genPow_congr
  rw [← Dealer.sum_weight_keyShare hrows hxs le_rfl, Exponent.residue_sum, List.map_map]
  simp only [Function.comp_def, Exponent.residue_mul, mul_comm]

theorem interpolatedKey_singleton (h : Commits r.guardians coefficients) (x : UInt32) :
    r.interpolatedKey [x] = genPow (Dealer.keyShare coefficients x) := by
  rw [h.interpolatedKey]
  apply genPow_congr
  simp [residue_lagrangeWeight]

end Commits

namespace Decryptor

variable {d : Decryptor} {coefficients : List (List Exponent)} {ts : List TrusteeProfile}

theorem coordinates_eq (hts : ∀ t ∈ ts, t ∈ d.trustees) :
    d.roster.coordinates (ts.map (·.id)) = ts.map (·.xCoordinate) := by
  obtain ⟨-, -, hfits, -⟩ := d.problems_eq_nil
  induction ts with
  | nil => rfl
  | cons t ts ih =>
    rw [List.forall_mem_cons] at hts
    obtain ⟨g, hg, -, hx⟩ := hfits t hts.1
    have htail := ih hts.2
    rw [Roster.coordinates] at htail ⊢
    rw [List.map_cons, List.filterMap_cons_some hg, List.map_cons, List.map_cons, htail, hx]

variable (hcommits : Commits d.roster.guardians coefficients)
include hcommits

theorem isResidue_jointPublicKey : d.context.jointPublicKey.isResidue = true := by
  rw [d.problems_eq_nil.1, hcommits.jointPublicKey]
  exact isResidue_genPow _

theorem quotient_pow_eq_one (xs : List UInt32) (w : Exponent) :
    (d.roster.interpolatedKey xs / d.context.jointPublicKey) ^ w = .one ↔
      d.roster.interpolatedKey xs = d.context.jointPublicKey ∨ w.residue = 0 := by
  apply Element.div_pow_eq_one _ (isResidue_jointPublicKey hcommits)
  rw [hcommits.interpolatedKey]
  exact isResidue_genPow _

/-- Trustees that are as many as the coefficients of any guardian agree on the joint key. -/
theorem interpolatedKey_eq_jointPublicKey (hts : ts.Sublist d.trustees)
    (hle : ∀ g ∈ d.roster.guardians, g.commitments.length ≤ (ts.map (·.id)).length) :
    d.roster.interpolatedKey (d.roster.coordinates (ts.map (·.id))) =
      d.context.jointPublicKey := by
  rw [coordinates_eq fun t ht => hts.subset ht, d.problems_eq_nil.1]
  apply hcommits.interpolatedKey_eq
  · simpa using hcommits.length_le hle
  · exact d.nodup_coordinates.sublist (hts.map _)

end Decryptor

/-- The challenge for the commitments that a verifier recomputes, the first of them times an extra
factor. -/
def Decryption.challengeTimes (item : Decryption) (text : Cipher) (context : ElectionContext)
    (factor : Element) : Exponent :=
  let (a, b) := item.proof.commitments context.jointPublicKey text.pad item.beta
  text.collectiveChallenge context.extendedBaseHash context.jointPublicKey (a * factor) b item.beta

theorem Decryption.verify_iff {item : Decryption} {text : Cipher} {context : ElectionContext} :
    item.verify text context = true ↔
      item.challengeTimes text context .one = item.proof.challenge := by
  rw [Decryption.verify, ChaumPedersenProof.verify_iff rfl, challengeTimes]
  simp only [ChaumPedersenProof.commitments, Element.mul_one_of_lt (Element.mul_lt _ _)]

namespace Session

variable {d : Decryptor} {c : String → Circumstances} {s : Household} {texts : List Cipher}
  {p : Panel} {i : ℕ} {text : Cipher} {metrics : Metrics} {record : Decryptions}

/-- A session of members that follow the protocol ends well only if no ticket expired, and then
with their responses. -/
theorem honest_of_run (htexts : texts ≠ [])
    (hrun : ((run d (Household.transport c) metrics texts).run s).1.1 = .ok record) :
    ∃ p : Panel, p.Formed d texts.length ∧ p.Honest d c s texts ∧ Fresh d c s ∧
      record = publish p (p.combine d.context texts)
        (responsesOf c s p (p.combine d.context texts)) := by
  obtain ⟨p, hassemble, hformed, hconclude⟩ := conclude_of_run htexts hrun
  have hhonest := honest_of_assemble htexts hassemble
  obtain ⟨responses, hcollect, -, rfl⟩ := conclude_eq_ok.1 hconclude
  have hfresh := fresh_of_collect htexts hhonest hformed hcollect
  rw [collect_of_honest htexts hfresh hhonest hformed _ (p.length_combine _ _),
    Except.ok.injEq] at hcollect
  rw [← hcollect]
  exact ⟨p, hformed, hhonest, hfresh, rfl⟩

/-- The shares of the members are those that belong to the share keys of the roster. -/
def Shares (d : Decryptor) (s : Household) : Prop :=
  ∀ t ∈ d.trustees, d.roster.shareKey? t.id = some (genPow (s t.id).keyShare)

def Panel.coordinates (p : Panel) : List UInt32 := p.responders.map (·.trustee.xCoordinate)

section Shares

variable (htexts : texts ≠ []) (hhonest : p.Honest d c s texts) (hshares : Shares d s)
  (hformed : p.Formed d texts.length)

include hshares hformed in
theorem interpolatedKey_coordinates : d.roster.interpolatedKey p.coordinates =
    genPow (Exponent.sum (p.responders.map fun r =>
      (s r.trustee.id).keyShare * p.weightOf r)) := by
  rw [Roster.interpolatedKey, ← prod_genPow, Panel.coordinates, List.map_map, List.map_map]
  refine congrArg Element.prod (List.map_congr_left fun r hr => ?_)
  have htrustee : r.trustee ∈ d.trustees := hformed.trustees.subset (List.mem_map_of_mem hr)
  have hkey := (d.shareKey?_eq htrustee).symm.trans (hshares _ htrustee)
  rw [Option.some_inj] at hkey
  simp only [Function.comp_apply, hkey, genPow_pow, Panel.weightOf]

variable (htext : texts[i]? = some text)

def itemAt (d : Decryptor) (c : String → Circumstances) (s : Household) (texts : List Cipher)
    (p : Panel) (text : Cipher) (i : ℕ) : Decryption :=
  decryptionAt p (responsesOf c s p (p.combine d.context texts)) d.context text i

include hformed htext in
theorem response_itemAt : (itemAt d c s texts p text i).proof.response =
    Exponent.sum (p.responders.map fun r => (s r.trustee.id).keyShare.respond (nonceAt c s r i)
      (p.challengeAt d.context text i .one * p.weightOf r)) := by
  have hi : i < texts.length := (List.getElem?_eq_some_iff.1 htext).1
  rw [itemAt, decryptionAt, responsesOf, List.map_map]
  refine congrArg Exponent.sum (List.map_congr_left fun r _ => ?_)
  rw [Function.comp_apply, getD_respondsTo (getElem?_challenges d.context r htext),
    hformed.combineAt_eq hi]

include htexts hhonest hshares hformed htext in
theorem first_itemAt (hkey : d.context.jointPublicKey.residue ≠ 0) :
    genPow (itemAt d c s texts p text i).proof.response *
        d.context.jointPublicKey ^ (itemAt d c s texts p text i).proof.challenge *
          (d.roster.interpolatedKey p.coordinates / d.context.jointPublicKey) ^
            (itemAt d c s texts p text i).proof.challenge = p.firstAt i := by
  rw [Element.mul_pow_mul_div_pow hkey, interpolatedKey_coordinates hshares hformed,
    response_itemAt hformed htext]
  refine genPow_sum_mul (s := fun r => (s r.trustee.id).keyShare) (w := p.weightOf) ?_ ?_
  · simp only [Exponent.residue_sum, List.map_map, Function.comp_def, Exponent.residue_mul,
      mul_comm]
  · intro r hr
    rw [partialAt_of_honest htexts hhonest hr htext]
    exact genPow_respond _ _ _

include htexts hhonest hformed htext in
theorem second_itemAt (hpad : p.responders ≠ [] → text.pad.IsTorsion) :
    text.pad ^ (itemAt d c s texts p text i).proof.response *
        (itemAt d c s texts p text i).beta ^ (itemAt d c s texts p text i).proof.challenge =
      p.secondAt i := by
  rw [response_itemAt hformed htext]
  by_cases hnil : p.responders = []
  · simp only [itemAt, decryptionAt, Panel.maskAt, Panel.secondAt, hnil, List.map_nil]
    apply Element.ext_residue (Element.mul_lt _ _) Element.one_lt
    simp [Exponent.sum, Exponent.zero]
  · have htorsion := hpad hnil
    have haccept : ∀ r ∈ p.responders,
        text.pad ^ (s r.trustee.id).keyShare.respond (nonceAt c s r i)
            (p.challengeAt d.context text i .one * p.weightOf r) *
          (r.partialAt i).mi ^ (p.challengeAt d.context text i .one * p.weightOf r) =
            (r.partialAt i).b := by
      intro r hr
      rw [partialAt_of_honest htexts hhonest hr htext]
      exact pow_respond _ _ _ htorsion
    have hstray : p.strayAt (p.challengeAt d.context text i .one) i = .one := by
      apply stray_of_isTorsion
      rw [List.forall_mem_map]
      intro r hr
      rw [partialAt_of_honest htexts hhonest hr htext]
      exact htorsion.pow _
    refine (pad_sum_mul htorsion haccept).trans ?_
    change p.secondAt i * p.strayAt _ i = p.secondAt i
    rw [hstray, p.secondAt_mul_one]

include htexts hhonest hshares hformed htext in
/-- The challenge was drawn for commitments the first of which differs from the recomputed one. -/
theorem challenge_itemAt (hkey : d.context.jointPublicKey.residue ≠ 0)
    (hpad : p.responders ≠ [] → text.pad.IsTorsion) :
    (itemAt d c s texts p text i).challengeTimes text d.context
        ((d.roster.interpolatedKey p.coordinates / d.context.jointPublicKey) ^
          (itemAt d c s texts p text i).proof.challenge) =
      (itemAt d c s texts p text i).proof.challenge := by
  simp only [Decryption.challengeTimes, ChaumPedersenProof.commitments,
    first_itemAt htexts hhonest hshares hformed htext hkey,
    second_itemAt htexts hhonest hformed htext hpad]
  rw [itemAt, decryptionAt, Panel.challengeAt, p.secondAt_mul_one]

include hformed htext in
theorem getElem?_itemAt : (publish p (p.combine d.context texts)
      (responsesOf c s p (p.combine d.context texts))).items[i]? =
    some (if p.flagged.contains i then none else some (itemAt d c s texts p text i)) := by
  rw [getElem?_items d.context hformed (length_of_mem_responsesOf _), htext]
  rfl

include htexts hhonest hshares hformed in
/-- An item of the record verifies when a power of the quotient leaves its challenge as it is. -/
theorem verify_itemAt_iff (hkey : d.context.jointPublicKey.residue ≠ 0)
    (hsize : texts.length ≤ UInt64.size) (htext : texts[i]? = some text)
    (hflag : p.flagged.contains i = false) :
    (itemAt d c s texts p text i).verify text d.context = true ↔
      (itemAt d c s texts p text i).challengeTimes text d.context
          ((d.roster.interpolatedKey p.coordinates / d.context.jointPublicKey) ^
            (itemAt d c s texts p text i).proof.challenge) =
        (itemAt d c s texts p text i).challengeTimes text d.context .one := by
  have hpad : p.responders ≠ [] → text.pad.IsTorsion := fun hne =>
    isTorsion_of_honest htexts hhonest hne hsize i text htext hflag
  rw [Decryption.verify_iff, challenge_itemAt htexts hhonest hshares hformed htext hkey hpad,
    eq_comm]

end Shares

end Session

section Accepted

open Session

variable {context : ElectionContext} {r : Roster} {trustees : List TrusteeProfile}
  {config : DecryptionConfig} {d : Decryptor} {s : Household} {c : String → Circumstances}
  {texts : List Cipher} {metrics : Metrics} {record : Decryptions}

/-- Members that hold the shares of the roster prove powers of the key that the share keys of those
among them that answered interpolate to. An item verifies when the quotient of this key and the
joint key leaves its challenge as it is, so the record verifies when the keys agree. They do when at
least as many members answered as any guardian has coefficients, which the quorum of an accepted
context need not ask for. -/
theorem accepted_session_verifies_iff
    (hresidues : ∀ g ∈ r.guardians, ∀ k ∈ g.commitments, k.isResidue = true)
    (hnew : Decryptor.new context r trustees config = .ok d)
    (hshares : ∀ t ∈ trustees, r.shareKey? t.id = some (genPow (s t.id).keyShare))
    (hsize : texts.length ≤ UInt64.size)
    (hrun : ((run d (Household.transport c) metrics texts).run s).1.1 = .ok record) :
    (∀ (i : ℕ) (text : Cipher) (item : Decryption), texts[i]? = some text →
      record.items[i]? = some (some item) →
        (item.verify text context = true ↔
          item.challengeTimes text context
              ((r.interpolatedKey (r.coordinates record.guardianIds) / context.jointPublicKey) ^
                item.proof.challenge) =
            item.challengeTimes text context .one)) ∧
      (∀ w : Exponent,
        (r.interpolatedKey (r.coordinates record.guardianIds) / context.jointPublicKey) ^ w = .one ↔
          r.interpolatedKey (r.coordinates record.guardianIds) = context.jointPublicKey ∨
            w.residue = 0) ∧
      (r.interpolatedKey (r.coordinates record.guardianIds) = context.jointPublicKey →
        record.verify texts context = true) ∧
      ((∀ g ∈ r.guardians, g.commitments.length ≤ record.guardianIds.length) →
        r.interpolatedKey (r.coordinates record.guardianIds) = context.jointPublicKey) := by
  obtain ⟨coefficients, hcommits⟩ := exists_commits hresidues
  obtain ⟨rfl, rfl, rfl, -⟩ := Decryptor.new_eq_ok hnew
  have hpower := Decryptor.quotient_pow_eq_one hcommits
  by_cases htexts : texts = []
  · subst htexts
    cases hrun
    exact ⟨by simp, hpower _, fun _ => rfl,
      Decryptor.interpolatedKey_eq_jointPublicKey hcommits (List.nil_sublist _)⟩
  · obtain ⟨p, hformed, hhonest, -, rfl⟩ := honest_of_run htexts hrun
    have hids : (publish p (p.combine d.context texts)
        (responsesOf c s p (p.combine d.context texts))).guardianIds =
          (p.responders.map (·.trustee)).map (·.id) := (List.map_map ..).symm
    have hcoordinates : d.roster.coordinates ((p.responders.map (·.trustee)).map (·.id)) =
        p.coordinates := by
      rw [Decryptor.coordinates_eq fun t ht => hformed.trustees.subset ht, List.map_map]
      rfl
    have hdegree := Decryptor.interpolatedKey_eq_jointPublicKey hcommits hformed.trustees
    have hkey := (Element.IsTorsion.of_isResidue
      (Decryptor.isResidue_jointPublicKey hcommits)).residue_ne_zero
    rw [hids]
    rw [hcoordinates] at hdegree ⊢
    refine ⟨?_, hpower _, ?_, hdegree⟩
    · intro i text item htext hitem
      rw [getElem?_itemAt hformed htext, Option.some_inj, Option.ite_none_left_eq_some,
        Bool.not_eq_true, Option.some_inj] at hitem
      obtain ⟨hflag, rfl⟩ := hitem
      exact verify_itemAt_iff htexts hhonest hshares hformed hkey hsize htext hflag
    · intro hagree
      rw [verify_publish hformed (length_of_mem_responsesOf _)]
      intro i text htext hflag
      refine (verify_itemAt_iff htexts hhonest hshares hformed hkey hsize htext hflag).2 ?_
      rw [(hpower _ _).2 (Or.inl hagree)]

end Accepted

namespace Lone

/-! A guardian with two coefficients stands alone on the roster, and its trustee is accepted as a
quorum of one although its share key is not the joint key. -/

open Session

def roster : Roster where
  guardians := [⟨"a", 1, [.generator, .generator], []⟩]
  accepted := by decide

def context : ElectionContext where
  numberOfGuardians := 1
  quorum := 1
  parameterBaseHash := ⟨List.replicate 32 0, rfl⟩
  electionBaseHash := ⟨List.replicate 32 0, rfl⟩
  extendedBaseHash := ⟨List.replicate 32 0, rfl⟩
  jointPublicKey := .generator

def trustee : TrusteeProfile := ⟨"a", 1, .generator⟩

def decryptor : Decryptor := ⟨context, roster, [trustee], {}, by decide⟩

def household : Household := fun _ => .new trustee ⟨2⟩ 60

def text : Cipher := .elgamal ⟨genPow ⟨5⟩, .one⟩

def outcome : Except (List Problem) Decryptions :=
  ((run decryptor (Household.transport fun _ => prompt) {} [text]).run household).1.1

theorem isResidue_commitments :
    ∀ g ∈ roster.guardians, ∀ k ∈ g.commitments, k.isResidue = true := by
  have hresidue : Element.generator.isResidue = true :=
    Element.isResidue_iff.2 ⟨by decide, generator_isTorsion⟩
  simp [roster, hresidue]

theorem new_eq : Decryptor.new context roster [trustee] {} = .ok decryptor :=
  dif_pos decryptor.accepted

theorem shareKey?_eq : ∀ t ∈ [trustee],
    roster.shareKey? t.id = some (genPow (household t.id).keyShare) := by
  decide

theorem interpolatedKey_ne : roster.interpolatedKey (roster.coordinates ["a"]) ≠
    context.jointPublicKey := by
  have hcommits : Commits roster.guardians [[.one, .one]] := by
    rw [Commits]
    decide
  have hcoordinates : roster.coordinates ["a"] = [1] := by decide
  rw [hcoordinates, hcommits.interpolatedKey_singleton]
  decide

set_option maxRecDepth 100000 in
/-- The single response is found good, and yet the item does not verify. -/
theorem exists_record : ∃ record item, outcome = .ok record ∧ record.guardianIds = ["a"] ∧
    record.items = [some item] ∧ item.verify text context = false :=
  Decryptions.exists_item_of_verdict (by decide +kernel)

end Lone

theorem accepted_session_verifies_iff_below_degree :
    ∃ (record : Decryptions) (item : Decryption), Lone.outcome = .ok record ∧
      Lone.roster.interpolatedKey (Lone.roster.coordinates record.guardianIds) ≠
        Lone.context.jointPublicKey ∧
      record.items = [some item] ∧
        (item.verify Lone.text Lone.context = true ↔
          item.challengeTimes Lone.text Lone.context
              ((Lone.roster.interpolatedKey (Lone.roster.coordinates record.guardianIds) /
                Lone.context.jointPublicKey) ^ item.proof.challenge) =
            item.challengeTimes Lone.text Lone.context .one) := by
  obtain ⟨record, item, hrun, hids, hitems, -⟩ := Lone.exists_record
  obtain ⟨hverify, -⟩ := accepted_session_verifies_iff Lone.isResidue_commitments Lone.new_eq
    Lone.shareKey?_eq (by decide) hrun
  refine ⟨record, item, hrun, hids ▸ Lone.interpolatedKey_ne, hitems, ?_⟩
  exact hverify 0 _ item rfl (by rw [hitems]; rfl)

/-- Honest members with the right shares are accepted, and still an item does not verify. -/
theorem not_accepted_session_verifies :
    (∀ g ∈ Lone.roster.guardians, ∀ k ∈ g.commitments, k.isResidue = true) ∧
      Decryptor.new Lone.context Lone.roster [Lone.trustee] {} = .ok Lone.decryptor ∧
      (∀ t ∈ [Lone.trustee],
        Lone.roster.shareKey? t.id = some (genPow (Lone.household t.id).keyShare)) ∧
      ∃ record item, Lone.outcome = .ok record ∧ record.items = [some item] ∧
        item.verify Lone.text Lone.context = false := by
  obtain ⟨record, item, hrun, -, hitems, hverify⟩ := Lone.exists_record
  exact ⟨Lone.isResidue_commitments, Lone.new_eq, Lone.shareKey?_eq, record, item, hrun, hitems,
    hverify⟩

end ThresholdElGamal
