import ThresholdElGamal.Proofs.Decryption.Rounds
import ThresholdElGamal.Proofs.Decryption.Transcripts
import ThresholdElGamal.Proofs.Decryption.Verification

/-! # When a record verifies

The record of a session verifies exactly when the proof of every unflagged item does. If the
responses fit the commitments of every responder, these proofs recompute the announced
commitments, but for the stray part of the contributions in the base of the pad.
-/

namespace ThresholdElGamal

theorem ChaumPedersenProof.verify_iff {proof : ChaumPedersenProof}
    {publicKey pad mask a b : Element} {challengeFor : Element → Element → Exponent}
    (h : proof.commitments publicKey pad mask = (a, b)) :
    proof.verify publicKey pad mask challengeFor = true ↔ challengeFor a b = proof.challenge := by
  simp [verify, h]

theorem ChaumPedersenProof.accepts_iff {proof : ChaumPedersenProof}
    {publicKey pad mask a b : Element} :
    proof.accepts publicKey pad mask a b = true ↔
      proof.commitments publicKey pad mask = (a, b) :=
  decide_eq_true_iff

namespace Session

def Responder.partialAt (r : Responder) (i : ℕ) : PartialDecryption :=
  r.answer.partials.getD i ⟨.one, .one, .one⟩

namespace Panel

/-- The weight of a responder in the session of the panel. -/
def weightOf (p : Panel) (r : Responder) : Exponent :=
  lagrangeWeight r.trustee.xCoordinate (p.responders.map (·.trustee.xCoordinate))

def maskAt (p : Panel) (i : ℕ) : Element :=
  .prod (p.responders.map fun r => (r.partialAt i).mi ^ p.weightOf r)

def firstAt (p : Panel) (i : ℕ) : Element := .prod (p.responders.map fun r => (r.partialAt i).a)

def secondAt (p : Panel) (i : ℕ) : Element := .prod (p.responders.map fun r => (r.partialAt i).b)

theorem secondAt_mul_one (p : Panel) (i : ℕ) : p.secondAt i * .one = p.secondAt i :=
  Element.mul_one_of_lt (Element.prod_lt _)

/-- The challenge for the announced commitments, the second one times an extra factor. -/
def challengeAt (p : Panel) (context : ElectionContext) (text : Cipher) (i : ℕ) (extra : Element) :
    Exponent :=
  text.collectiveChallenge context.extendedBaseHash context.jointPublicKey (p.firstAt i)
    (p.secondAt i * extra) (p.maskAt i)

@[simp]
theorem length_combine (p : Panel) (context : ElectionContext) (texts : List Cipher) :
    (p.combine context texts).length = texts.length := by
  simp [combine]

/-- What the contributions for the ciphertext at a position leave over. -/
def strayAt (p : Panel) (c : Exponent) (i : ℕ) : Element :=
  stray c (p.responders.map fun r => ((r.partialAt i).mi, p.weightOf r))

end Panel

theorem filterMap_getElem? {α β : Type} {rows : List β} {f : β → List α} {n i : ℕ} (x : α)
    (h : ∀ row ∈ rows, (f row).length = n) (hi : i < n) :
    rows.filterMap (fun row => (f row)[i]?) = rows.map fun row => (f row).getD i x := by
  rw [← List.filterMap_eq_map]
  apply List.filterMap_congr
  intro row hrow
  have hlt : i < (f row).length := by rw [h row hrow]; exact hi
  simp [List.getElem?_eq_getElem hlt]

theorem map_eq_map_zip_fst {α β γ : Type} {xs : List α} {ys : List β}
    (h : xs.length ≤ ys.length) (f : α → γ) : xs.map f = (xs.zip ys).map fun xy => f xy.1 := by
  conv_lhs => rw [← List.map_fst_zip h, List.map_map]
  rfl

theorem map_eq_map_zip_snd {α β γ : Type} {xs : List α} {ys : List β}
    (h : ys.length ≤ xs.length) (f : β → γ) : ys.map f = (xs.zip ys).map fun xy => f xy.2 := by
  conv_lhs => rw [← List.map_snd_zip h, List.map_map]
  rfl

theorem zip_map_self {α β : Type} (f : α → β) (xs : List α) :
    xs.zip (xs.map f) = xs.map fun x => (x, f x) := by
  induction xs with
  | nil => rfl
  | cons x xs ih => rw [List.map_cons, List.zip_cons_cons, ih, List.map_cons]

variable {d : Decryptor} {n : ℕ} {p : Panel} {i : ℕ}

namespace Panel.Formed

variable (h : p.Formed d n)
include h

theorem weights_eq :
    p.weights = p.responders.map fun r =>
      ⟨r.trustee.id, r.trustee.xCoordinate, p.weightOf r⟩ := by
  rw [h.weights]
  simp [Decryptor.weightsOf, lagrangeCoordinates, weightOf, Function.comp_def]

theorem column_eq (hi : i < n) : p.column i = p.responders.map (·.partialAt i) :=
  filterMap_getElem? _ h.partials hi

theorem combineAt_eq (hi : i < n) (context : ElectionContext) (text : Cipher) :
    p.combineAt context text i = ⟨p.maskAt i, p.challengeAt context text i .one⟩ := by
  have hzip : (p.column i).zip p.weights = p.responders.map fun r =>
      (r.partialAt i, ⟨r.trustee.id, r.trustee.xCoordinate, p.weightOf r⟩) := by
    rw [h.column_eq hi, h.weights_eq, List.zip_map']
  simp only [combineAt, hzip, challengeAt, secondAt_mul_one]
  simp [h.column_eq hi, maskAt, firstAt, secondAt, Function.comp_def]

end Panel.Formed

/-- The item at a position that is not flagged. -/
def decryptionAt (p : Panel) (responses : List (List Exponent)) (context : ElectionContext)
    (text : Cipher) (i : ℕ) : Decryption :=
  ⟨p.maskAt i, ⟨p.challengeAt context text i .one,
    Exponent.sum (responses.map (·.getD i .zero))⟩⟩

variable {texts : List Cipher} {responses : List (List Exponent)} {context : ElectionContext}

theorem getElem?_items (context : ElectionContext) (h : p.Formed d texts.length)
    (hresponses : ∀ vs ∈ responses, vs.length = texts.length) (i : ℕ) :
    (publish p (p.combine context texts) responses).items[i]? =
      texts[i]?.map fun text =>
        if p.flagged.contains i then none else some (decryptionAt p responses context text i) := by
  simp only [publish, Panel.combine, List.getElem?_map, List.getElem?_zipIdx]
  cases htext : texts[i]? with
  | none => rfl
  | some text =>
    have hi : i < texts.length := (List.getElem?_eq_some_iff.1 htext).1
    simp only [Option.map_some, item, zero_add, h.combineAt_eq hi, decryptionAt,
      filterMap_getElem? .zero hresponses hi]

theorem length_items : (publish p (p.combine context texts) responses).items.length =
    texts.length := by
  simp [publish, Panel.combine]

theorem verify_publish (h : p.Formed d texts.length)
    (hresponses : ∀ vs ∈ responses, vs.length = texts.length) :
    (publish p (p.combine context texts) responses).verify texts context = true ↔
      ∀ i text, texts[i]? = some text → p.flagged.contains i = false →
        (decryptionAt p responses context text i).verify text context = true := by
  have hflagged : ∀ i, (publish p (p.combine context texts) responses).isFlagged i =
      p.flagged.contains i := fun _ => rfl
  rw [Decryptions.verify_iff_forall_place]
  constructor
  · rintro ⟨-, hall⟩ i text htext hi
    have hitem := getElem?_items context h hresponses i
    rw [htext, Option.map_some, hi, if_neg Bool.false_ne_true] at hitem
    exact (hall i _ text hitem htext).2 _ rfl
  · intro hall
    refine ⟨length_items, ?_⟩
    intro i item text hitem htext
    rw [getElem?_items context h hresponses, htext, Option.map_some, Option.some_inj] at hitem
    subst hitem
    cases hi : p.flagged.contains i with
    | true => simp [hflagged, hi]
    | false => simpa [hflagged, hi] using hall i text htext hi

/-- The responses fit the commitments of every responder, wherever the record holds an item. -/
def Accepted (coefficients : List (List Exponent)) (p : Panel) (context : ElectionContext)
    (texts : List Cipher) (responses : List (List Exponent)) : Prop :=
  ∀ rv ∈ p.responders.zip responses, ∀ i text, texts[i]? = some text →
    p.flagged.contains i = false →
      (ChaumPedersenProof.mk (p.challengeAt context text i .one * p.weightOf rv.1)
        (rv.2.getD i .zero)).accepts
          (genPow (Dealer.keyShare coefficients rv.1.trustee.xCoordinate)) text.pad
          (rv.1.partialAt i).mi (rv.1.partialAt i).a (rv.1.partialAt i).b = true

section Accepted

variable {coefficients : List (List Exponent)} (hbacking : d.Backing coefficients)
  (h : p.Formed d texts.length) (hlength : responses.length = p.responders.length)
  (haccepted : Accepted coefficients p d.context texts responses)
include hbacking h hlength haccepted

theorem commitments_decryptionAt {text : Cipher} (htext : texts[i]? = some text)
    (hi : p.flagged.contains i = false) (hpad : text.pad.IsTorsion) :
    (decryptionAt p responses d.context text i).proof.commitments d.context.jointPublicKey text.pad
        (p.maskAt i) =
      (p.firstAt i, p.secondAt i * p.strayAt (p.challengeAt d.context text i .one) i) := by
  have hresponders {β : Type} (f : Responder → β) := map_eq_map_zip_fst hlength.ge f
  have hrows {β : Type} (f : List Exponent → β) := map_eq_map_zip_snd hlength.le f
  have hsecret := hbacking.sum_weight_keyShare h.trustees (by simpa using h.quorum)
  simp only [List.map_map, Function.comp_def] at hsecret
  have hboth := fun rv hrv => haccepted rv hrv i text htext hi
  simp only [ChaumPedersenProof.accepts, ChaumPedersenProof.commitments, decide_eq_true_eq,
    Prod.mk.injEq] at hboth
  rw [ChaumPedersenProof.commitments, Prod.mk.injEq, hbacking.jointPublicKey]
  constructor
  · rw [Panel.firstAt, decryptionAt, hrows, hresponders]
    refine genPow_sum_mul ?_ fun rv hrv => (hboth rv hrv).1
    rw [← hsecret, hresponders]
    rfl
  · rw [Panel.secondAt, Panel.maskAt, Panel.strayAt, decryptionAt, hrows, hresponders, hresponders,
      hresponders]
    exact pad_sum_mul hpad fun rv hrv => (hboth rv hrv).2

variable (hresponses : ∀ vs ∈ responses, vs.length = texts.length)
  (hpads : ∀ i text, texts[i]? = some text → p.flagged.contains i = false → text.pad.IsTorsion)
include hresponses hpads

/-- The record verifies when the stray parts leave every challenge as it is. -/
theorem verify_iff_stray :
    (publish p (p.combine d.context texts) responses).verify texts d.context = true ↔
      ∀ i text, texts[i]? = some text → p.flagged.contains i = false →
        p.challengeAt d.context text i (p.strayAt (p.challengeAt d.context text i .one) i) =
          p.challengeAt d.context text i .one := by
  rw [verify_publish h hresponses]
  refine forall₄_congr fun i text htext hi => ?_
  have hcommitments :=
    commitments_decryptionAt hbacking h hlength haccepted htext hi (hpads i text htext hi)
  rw [Decryption.verify]
  exact ChaumPedersenProof.verify_iff hcommitments

theorem verify_of_isTorsion
    (hcontributions : ∀ r ∈ p.responders, ∀ i text, texts[i]? = some text →
      p.flagged.contains i = false → (r.partialAt i).mi.IsTorsion) :
    (publish p (p.combine d.context texts) responses).verify texts d.context = true := by
  rw [verify_iff_stray hbacking h hlength haccepted hresponses hpads]
  intro i text htext hi
  have hstray : p.strayAt (p.challengeAt d.context text i .one) i = .one := by
    apply stray_of_isTorsion
    simp only [List.forall_mem_map]
    exact fun r hr => hcontributions r hr i text htext hi
  rw [hstray]

end Accepted

section Checks

theorem challenges_eq (h : p.Formed d n) (combined : List Combined) :
    p.challenges combined = p.responders.map fun r =>
      combined.map fun c => c.challenge * p.weightOf r := by
  rw [Panel.challenges, h.weights_eq, List.map_map]
  rfl

theorem zip_challenges (h : p.Formed d n) (combined : List Combined) :
    p.responders.zip (p.challenges combined) =
      p.responders.map fun r => (r, combined.map fun c => c.challenge * p.weightOf r) := by
  rw [challenges_eq h, zip_map_self]

theorem length_askClosing {σ : Type} {transport : Transport (StateM σ)} {s : σ}
    (h : p.Formed d n) (combined : List Combined) :
    ((askClosing p transport combined).run s).1.length = p.responders.length := by
  rw [askClosing, length_mapM, zip_challenges h, List.length_map]

theorem nodup_asked (h : p.Formed d n) (combined : List Combined) :
    ((p.responders.zip (p.challenges combined)).map fun rc => rc.1.trustee.id).Nodup := by
  have hsublist := h.trustees.map (·.id)
  rw [List.map_map] at hsublist
  rw [zip_challenges h, List.map_map]
  exact d.nodup_ids.sublist hsublist

theorem getElem?_challenges (context : ElectionContext) (r : Responder) {text : Cipher}
    (htext : texts[i]? = some text) :
    ((p.combine context texts).map fun c => c.challenge * p.weightOf r)[i]? =
      some ((p.combineAt context text i).challenge * p.weightOf r) := by
  simp [Panel.combine, htext]

theorem mem_zip_map_zip {α β γ : Type} {f : α → γ} {xs : List α} {ys : List β} {x : α} {y : β}
    {z : γ} : (x, z, y) ∈ xs.zip ((xs.map f).zip ys) ↔ (x, y) ∈ xs.zip ys ∧ z = f x := by
  simp only [List.mem_iff_getElem?, List.getElem?_zip_eq_some, List.getElem?_map]
  constructor
  · rintro ⟨i, hx, hz, hy⟩
    rw [hx, Option.map_some, Option.some_inj] at hz
    exact ⟨⟨i, hx, hy⟩, hz.symm⟩
  · rintro ⟨⟨i, hx, hy⟩, rfl⟩
    exact ⟨i, hx, by rw [hx, Option.map_some], hy⟩

theorem getElem?_getD {α : Type} {xs : List α} (x : α) (hi : i < xs.length) :
    xs[i]? = some (xs.getD i x) := by
  simp [hi]

theorem mem_badPositions {flagged : Flags} {shareKey : Element}
    {partials : List PartialDecryption} {challenges vs : List Exponent} :
    i ∈ badPositions flagged texts shareKey partials challenges vs ↔
      ∃ text m c v, texts[i]? = some text ∧ partials[i]? = some m ∧ challenges[i]? = some c ∧
        vs[i]? = some v ∧ flagged.contains i = false ∧
          (ChaumPedersenProof.mk c v).accepts shareKey text.pad m.mi m.a m.b = false := by
  simp only [badPositions, List.mem_filterMap, Option.ite_none_left_eq_some, Bool.not_eq_true,
    Bool.or_eq_false_iff, Option.some.injEq]
  constructor
  · rintro ⟨⟨⟨text, m, c, v⟩, j⟩, hmem, ⟨hj, hbad⟩, rfl⟩
    rw [List.mk_mem_zipIdx_iff_getElem?] at hmem
    simp only [List.getElem?_zip_eq_some] at hmem
    obtain ⟨htext, hm, hc, hv⟩ := hmem
    exact ⟨text, m, c, v, htext, hm, hc, hv, hj, hbad⟩
  · rintro ⟨text, m, c, v, htext, hm, hc, hv, hi, hbad⟩
    refine ⟨((text, m, c, v), i), ?_, ⟨hi, hbad⟩, rfl⟩
    rw [List.mk_mem_zipIdx_iff_getElem?]
    simp only [List.getElem?_zip_eq_some]
    exact ⟨htext, hm, hc, hv⟩

variable {r : Responder} {vs : List Exponent}

theorem mem_badPositions_of_formed (h : p.Formed d texts.length) (hr : r ∈ p.responders)
    (hvs : vs.length = texts.length) {shareKey : Element} :
    i ∈ badPositions p.flagged texts shareKey r.answer.partials
        ((p.combine context texts).map fun c => c.challenge * p.weightOf r) vs ↔
      ∃ text, texts[i]? = some text ∧ p.flagged.contains i = false ∧
        (ChaumPedersenProof.mk ((p.combineAt context text i).challenge * p.weightOf r)
          (vs.getD i .zero)).accepts shareKey text.pad (r.partialAt i).mi (r.partialAt i).a
            (r.partialAt i).b = false := by
  have hpartial (hi : i < texts.length) : r.answer.partials[i]? = some (r.partialAt i) :=
    getElem?_getD _ (by rw [h.partials r hr]; exact hi)
  have hresponse (hi : i < texts.length) : vs[i]? = some (vs.getD i .zero) :=
    getElem?_getD _ (by rw [hvs]; exact hi)
  rw [mem_badPositions]
  constructor
  · rintro ⟨text, m, c, v, htext, hm, hc, hv, hflag, hbad⟩
    have hi : i < texts.length := (List.getElem?_eq_some_iff.1 htext).1
    rw [hpartial hi, Option.some_inj] at hm
    rw [getElem?_challenges context r htext, Option.some_inj] at hc
    rw [hresponse hi, Option.some_inj] at hv
    subst hm hc hv
    exact ⟨text, htext, hflag, hbad⟩
  · rintro ⟨text, htext, hflag, hbad⟩
    have hi : i < texts.length := (List.getElem?_eq_some_iff.1 htext).1
    exact ⟨text, _, _, _, htext, hpartial hi, getElem?_challenges context r htext, hresponse hi,
      hflag, hbad⟩

theorem individualFaults_eq_nil {coefficients : List (List Exponent)}
    (hbacking : d.Backing coefficients) (h : p.Formed d texts.length) (hr : r ∈ p.responders)
    (hvs : vs.length = texts.length) :
    individualFaults d.roster p.flagged texts r
        ((p.combine d.context texts).map fun c => c.challenge * p.weightOf r) vs = [] ↔
      ∀ i text, texts[i]? = some text → p.flagged.contains i = false →
        (ChaumPedersenProof.mk (p.challengeAt d.context text i .one * p.weightOf r)
          (vs.getD i .zero)).accepts (genPow (Dealer.keyShare coefficients r.trustee.xCoordinate))
            text.pad (r.partialAt i).mi (r.partialAt i).a (r.partialAt i).b = true := by
  have htrustee : r.trustee ∈ d.trustees := h.trustees.subset (List.mem_map_of_mem hr)
  have hchallenge {i : ℕ} {text : Cipher} (htext : texts[i]? = some text) :
      (p.combineAt d.context text i).challenge = p.challengeAt d.context text i .one := by
    rw [h.combineAt_eq (List.getElem?_eq_some_iff.1 htext).1]
  simp only [individualFaults, hbacking.shareKey? htrustee, List.map_eq_nil_iff]
  simp only [List.eq_nil_iff_forall_not_mem, mem_badPositions_of_formed h hr hvs]
  constructor
  · intro hnone i text htext hflag
    rw [← Bool.not_eq_false, ← hchallenge htext]
    exact fun hbad => hnone i ⟨text, htext, hflag, hbad⟩
  · rintro hall i ⟨text, htext, hflag, hbad⟩
    rw [hchallenge htext, hall i text htext hflag] at hbad
    exact Bool.noConfusion hbad

/-- The checks of single responders pass exactly when the responses fit the commitments. -/
theorem individualProblems_eq_nil {coefficients : List (List Exponent)}
    (hbacking : d.Backing coefficients) (h : p.Formed d texts.length)
    (hresponses : ∀ vs ∈ responses, vs.length = texts.length) :
    individualProblems d.roster p texts (p.challenges (p.combine d.context texts)) responses = [] ↔
      Accepted coefficients p d.context texts responses := by
  simp only [individualProblems, challenges_eq h, List.flatMap_eq_nil_iff, List.map_eq_nil_iff]
  constructor
  · rintro hall ⟨r, vs⟩ hrv
    obtain ⟨hr, hvs⟩ := List.of_mem_zip hrv
    exact (individualFaults_eq_nil hbacking h hr (hresponses vs hvs)).1
      (hall _ (mem_zip_map_zip.2 ⟨hrv, rfl⟩))
  · rintro haccepted ⟨r, cs, vs⟩ hmem
    obtain ⟨hrv, rfl⟩ := mem_zip_map_zip.1 hmem
    obtain ⟨hr, hvs⟩ := List.of_mem_zip hrv
    exact (individualFaults_eq_nil hbacking h hr (hresponses vs hvs)).2
      fun i text htext hi => haccepted (r, vs) hrv i text htext hi

end Checks

end Session

end ThresholdElGamal
