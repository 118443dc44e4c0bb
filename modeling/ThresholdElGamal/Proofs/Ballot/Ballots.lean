import ThresholdElGamal.Proofs.Ballot.Items
import ThresholdElGamal.Proofs.Ballot.Votes
import ThresholdElGamal.Proofs.Ciphertext.Hashed

/-! # Opening ballots

Selections and payloads of all contests share one session and are read back in one pass. A ballot
of any shape is opened exactly when a holder of the secret key could open every one of its items;
otherwise the report names the items that could not be opened and no others.
-/

namespace ThresholdElGamal

namespace Opening

namespace Opener

variable (o : Opener)

/-- What a holder of the secret key makes of the payload of a contest. -/
def dataOf (contestId : String) (x : HashedCiphertext) : Option Bytes :=
  x.decrypt o.context.jointPublicKey o.context.extendedBaseHash contestDataLabel contestId
    (x.c0 ^ o.secretKey)

/-- The pad is in the subgroup, and the payload authenticates. -/
def OpensData (contestId : String) (x : HashedCiphertext) : Prop :=
  x.c0.isResidue = true ∧ (o.dataOf contestId x).isSome = true

def dataProblems (contestId : String) (x : HashedCiphertext) : List ContestProblem :=
  if x.c0.isResidue = false then o.reasons.map .dataFlagged
  else if (o.dataOf contestId x).isSome then [] else [.dataNotAuthentic]

/-- What is reported of a contest: of its selections, then of its payload. -/
def contestProblems (c : EncryptedContest) : List Problem :=
  (o.selectionsProblems c.selections ++
    c.contestData.toList.flatMap (o.dataProblems c.contestId)).map (.mk c.contestId)

/-- The opened payload is the encrypted one with its plaintext. -/
structure DataOpened (contestId : String) (x : HashedCiphertext) (y : DecryptedContestData) :
    Prop where
  ciphertext : y.ciphertext = x
  data : o.dataOf contestId x = some y.data
  beta : y.decryption.beta = x.c0 ^ o.secretKey
  proof : y.decryption.verify (.hashed x) o.context = true

/-- The opened contest has the same parts in the same order. -/
structure ContestOpened (c : EncryptedContest) (c' : DecryptedContest) : Prop where
  contestId : c'.contestId = c.contestId
  selections : List.Forall₂ o.SelectionOpened c.selections c'.selections
  contestData : Option.Rel (o.DataOpened c.contestId) c.contestData c'.contestData

variable {o} {flagged : Flags} {contestId : String}

theorem dataProblems_eq_nil (hreasons : o.reasons ≠ []) {x : HashedCiphertext} :
    o.dataProblems contestId x = [] ↔ o.OpensData contestId x := by
  rw [dataProblems]
  split
  · next h => simp [hreasons, OpensData, h]
  · split <;> simp_all [OpensData]

theorem DataOpened.defects {x : HashedCiphertext} {y : DecryptedContestData}
    (h : o.DataOpened contestId x y) : y.defects contestId o.context = [] := by
  rw [DecryptedContestData.defects, h.ciphertext, h.proof, h.beta]
  have hdata := h.data
  rw [dataOf] at hdata
  simp [hdata]

theorem ContestOpened.defects {c : EncryptedContest} {c' : DecryptedContest}
    (h : o.ContestOpened c c') : DecryptedBallot.contestDefects o.context c' = [] := by
  rw [DecryptedBallot.contestDefects, selectionDefects_eq_nil h.selections, List.nil_append,
    h.contestId]
  cases hdata : c'.contestData with
  | none => rfl
  | some y =>
    have hrel := h.contestData
    rw [hdata] at hrel
    generalize c.contestData = x at hrel
    cases hrel with
    | some hopened => exact hopened.defects

theorem verify_of_contestOpened {cs : List EncryptedContest} {ballot : DecryptedBallot}
    (h : List.Forall₂ o.ContestOpened cs ballot.contests) :
    ballot.verify o.context = .ok () := by
  rw [DecryptedBallot.verify, unlessProblems_eq_ok, DecryptedBallot.problems]
  refine ⟨?_, rfl⟩
  generalize ballot.contests = cs' at h
  induction h with
  | nil => rfl
  | cons hopened _ ih =>
    rw [List.flatMap_cons, hopened.defects, ih]
    rfl

/-- What opening the payload in front of other ciphertexts yields, if there is one. -/
structure DataRead (o : Opener) (flagged : Flags) (contestId : String)
    (data : Option HashedCiphertext) (texts : List Cipher)
    (r : List ContestProblem × Option DecryptedContestData × Pending) : Prop where
  rest : List.Forall₂ (o.Delivers flagged) texts r.2.2
  problems : r.1 = data.toList.flatMap (o.dataProblems contestId)
  opened : r.1 = [] → Option.Rel (o.DataOpened contestId) data r.2.1

theorem dataRead_openData (hreasons : o.reasons ≠ []) (contestId : String)
    {data : Option HashedCiphertext} {texts : List Cipher} {rest : Pending}
    (h : List.Forall₂ (o.Delivers flagged) (data.toList.map .hashed ++ texts) rest) :
    o.DataRead flagged contestId data texts (openData flagged o.context contestId data rest) := by
  cases data with
  | none => exact ⟨h, rfl, fun _ => .none⟩
  | some x =>
    cases h with
    | cons hitem htail =>
      have hproblems : (some x).toList.flatMap (o.dataProblems contestId) =
          o.dataProblems contestId x := List.flatMap_singleton _ _
      cases hitem with
      | flagged hpad hflag =>
        change x.c0.isResidue = false at hpad
        rw [openData, hflag, Option.getD_some]
        refine ⟨htail, ?_, ?_⟩
        · rw [hproblems, dataProblems, if_pos hpad]
        · intro hnil
          exact absurd (List.map_eq_nil_iff.1 hnil) hreasons
      | @decrypted _ decryption hpad hbeta hproof =>
        change x.c0.isResidue = true at hpad
        change decryption.beta = x.c0 ^ o.secretKey at hbeta
        have hdata : x.decrypt o.context.jointPublicKey o.context.extendedBaseHash contestDataLabel
            contestId decryption.beta = o.dataOf contestId x := by
          rw [dataOf, hbeta]
        rw [openData, hdata]
        cases hplain : o.dataOf contestId x with
        | some plain =>
          refine ⟨htail, ?_, fun _ => .some ⟨rfl, hplain, hbeta, hproof⟩⟩
          rw [hproblems, dataProblems, hpad, hplain]
          rfl
        | none =>
          refine ⟨htail, ?_, ?_⟩
          · rw [hproblems, dataProblems, hpad, hplain]
            rfl
          · rintro ⟨⟩

theorem Looks.openBallotContests (hreasons : o.reasons ≠ []) {d : Decryptor}
    (hcontext : d.context = o.context) {cs : List EncryptedContest} {rest : Pending}
    {log : DiscreteLog} (hlooks : o.Looks d log)
    (h : List.Forall₂ (o.Delivers flagged) (cs.flatMap contestTexts) rest) :
    (openBallotContests d flagged cs rest log).problems = cs.flatMap o.contestProblems ∧
      ((openBallotContests d flagged cs rest log).problems = [] →
        List.Forall₂ o.ContestOpened cs (openBallotContests d flagged cs rest log).opened) := by
  induction cs generalizing rest log with
  | nil => exact ⟨rfl, fun _ => .nil⟩
  | cons c cs ih =>
    rw [List.flatMap_cons, contestTexts, List.append_assoc] at h
    have hselections := hlooks.openSelections hreasons h
    have hdata := dataRead_openData hreasons c.contestId hselections.rest
    rw [← hcontext] at hdata
    obtain ⟨hproblems, hopened⟩ := ih hselections.looks hdata.rest
    rw [Opening.openBallotContests, List.flatMap_cons, contestProblems, ← hselections.problems,
      ← hdata.problems, ← hproblems]
    refine ⟨rfl, ?_⟩
    intro hnil
    simp only [List.append_eq_nil_iff, List.map_eq_nil_iff] at hnil
    obtain ⟨⟨hnone, hnone'⟩, hrest⟩ := hnil
    exact .cons ⟨rfl, hselections.opened hnone, hdata.opened hnone'⟩ (hopened hrest)

def OpensContest (o : Opener) (c : EncryptedContest) : Prop :=
  (∀ s ∈ c.selections, o.OpensSelection s.ciphertext) ∧
    ∀ x ∈ c.contestData, o.OpensData c.contestId x

theorem contestProblems_eq_nil (hreasons : o.reasons ≠ []) {c : EncryptedContest} :
    o.contestProblems c = [] ↔ o.OpensContest c := by
  simp only [contestProblems, selectionsProblems, List.map_eq_nil_iff, List.append_eq_nil_iff,
    List.flatMap_eq_nil_iff, selectionProblems_eq_nil hreasons, dataProblems_eq_nil hreasons,
    Option.mem_toList, Option.mem_def, OpensContest]

section Encrypts

/-! A ballot that was encrypted from a sheet can be opened, to the payloads of the sheet. -/

variable {sheet : VoteSheet} {ballot : EncryptedBallot}
  (hkey : o.context.jointPublicKey = genPow o.secretKey)
  (hencrypts : VoteSheet.Encrypts o.context sheet ballot)
  (hlength : ∀ data ∈ sheet.contestData, ∀ message ∈ data, message.length < 2 ^ 32)
include hkey

theorem opensSelection_encrypt {count : UInt32} (hle : count ≤ o.bound) (nonce : Exponent) :
    o.OpensSelection (.encrypt o.context.jointPublicKey count nonce) := by
  have htorsion : o.context.jointPublicKey.IsTorsion := by
    rw [hkey]
    exact isTorsion_genPow _
  have hholds := Ciphertext.holds_encrypt htorsion count nonce
  exact ⟨hholds.isResidue_pad, count.toNat, UInt32.le_iff_toNat_le.1 hle, hholds.decrypt_eq hkey⟩

theorem dataOf_encrypt (contestId : String) {message : Bytes} (hmessage : message.length < 2 ^ 32)
    (nonce : Exponent) :
    o.dataOf contestId (.encrypt o.context.jointPublicKey o.context.extendedBaseHash
      contestDataLabel contestId message nonce) = some message := by
  have hshared : genPow nonce ^ o.secretKey = o.context.jointPublicKey ^ nonce := by
    rw [hkey, genPow_pow_comm]
  exact (congrArg _ hshared).trans
    (HashedCiphertext.decryptWith_pow_nonce hmessage Hmac.mac _ nonce _ _ _)

include hencrypts hlength

theorem opensContest_of_encrypts (hvotes : ∀ row ∈ sheet.votes, ∀ v ∈ row, v ≤ o.bound) :
    ∀ c ∈ ballot.contests, o.OpensContest c := by
  intro c hc
  obtain ⟨i, hi⟩ := List.mem_iff_getElem?.1 hc
  obtain ⟨row, hrow, hcontest⟩ := VoteSheet.exists_of_forall₂_zipIdx hencrypts.contests hi
  constructor
  · intro s hs
    obtain ⟨j, hj⟩ := List.mem_iff_getElem?.1 hs
    obtain ⟨v, hv, -, nonce, hciphertext⟩ :=
      VoteSheet.exists_of_forall₂_zipIdx hcontest.selections hj
    rw [hciphertext]
    exact opensSelection_encrypt hkey
      (hvotes row (List.mem_of_getElem? hrow) v (List.mem_of_getElem? hv)) nonce
  · intro x hx
    have hrel := hcontest.contestData
    have hmessages := VoteSheet.length_payload_lt hlength i
    rw [Option.mem_def.1 hx] at hrel
    generalize sheet.payload i = message? at hrel hmessages
    cases hrel with
    | some hdata =>
      obtain ⟨nonce, rfl⟩ := hdata
      exact ⟨isResidue_genPow nonce, Option.isSome_of_eq_some
        (dataOf_encrypt hkey c.contestId (hmessages _ rfl) nonce)⟩

theorem payloads_of_encrypts {contests : List DecryptedContest}
    (hopened : List.Forall₂ o.ContestOpened ballot.contests contests) :
    contests.map (fun c => c.contestData.map (·.data)) =
      (List.range sheet.votes.length).map sheet.payload := by
  have hcontests := hencrypts.contests
  rw [← VoteSheet.map_snd_zipIdx, List.map_map]
  generalize sheet.votes.zipIdx = rows at hcontests
  generalize ballot.contests = encrypted at hcontests hopened
  induction hcontests generalizing contests with
  | nil =>
    cases hopened
    rfl
  | @cons row c rows encrypted hcontest _ ih =>
    cases hopened with
    | @cons _ c' _ contests hfirst hrest =>
      have hdata : c'.contestData.map (·.data) = sheet.payload row.2 := by
        have hencrypted := hcontest.contestData
        have hread := hfirst.contestData
        have hmessages := VoteSheet.length_payload_lt hlength row.2
        generalize sheet.payload row.2 = message? at hencrypted hmessages
        generalize c.contestData = x? at hencrypted hread
        generalize c'.contestData = y? at hread
        cases hencrypted with
        | none =>
          cases hread
          rfl
        | some hx =>
          obtain ⟨nonce, rfl⟩ := hx
          cases hread with
          | some hy =>
            rw [Option.map_some, ← hy.data]
            exact dataOf_encrypt hkey c.contestId (hmessages _ rfl) nonce
      rw [List.map_cons, List.map_cons, hdata, ih hrest]
      rfl

end Encrypts

/-- The ballot is opened, or reported with everything that could not be opened. -/
theorem Looks.openBallot (hreasons : o.reasons ≠ []) {d : Decryptor}
    (hcontext : d.context = o.context) {ballot : EncryptedBallot} {record : Decryptions}
    {log : DiscreteLog} (hlooks : o.Looks d log)
    (h : List.Forall₂ (o.Delivers record.flagged) (ballotTexts ballot) (pending record)) :
    (∃ contests, (openBallot d ballot record log).1 =
          .ok ⟨ballot.ballotId, contests, record.guardianIds⟩ ∧
        List.Forall₂ o.ContestOpened ballot.contests contests ∧
          ∀ c ∈ ballot.contests, o.OpensContest c) ∨
      ((openBallot d ballot record log).1 = .error (ballot.contests.flatMap o.contestProblems) ∧
        ¬ ∀ c ∈ ballot.contests, o.OpensContest c) := by
  obtain ⟨hproblems, hopened⟩ := hlooks.openBallotContests hreasons hcontext h
  have hopens : ballot.contests.flatMap o.contestProblems = [] ↔
      ∀ c ∈ ballot.contests, o.OpensContest c := by
    simp only [List.flatMap_eq_nil_iff, contestProblems_eq_nil hreasons]
  rw [Opening.openBallot]
  by_cases hall : ∀ c ∈ ballot.contests, o.OpensContest c
  · have hnil := hproblems.trans (hopens.2 hall)
    exact Or.inl ⟨_, unlessProblems_eq_ok.2 ⟨hnil, rfl⟩, hopened hnil, hall⟩
  · refine Or.inr ⟨unlessProblems_eq_error.2 ⟨?_, hproblems⟩, hall⟩
    rw [hproblems]
    exact mt hopens.1 hall

end Opener

end Opening

open Session Opening

section Dealt

variable {σ : Type} {draw : StateT σ Option Exponent} {manifest : String} {n quorum : UInt32}
  {ttl : ℕ} {source rest : σ} {e : DealtElection} {trustees : List TrusteeProfile}
  {config : DecryptionConfig} {d : Decryptor} {s : Household} {c : String → Circumstances}

/-- An honest quorum opens a ballot exactly when every pad is in the subgroup, every selection holds
a count within the bound and every payload authenticates. The opened ballot has the same contests
and selections in the same order, each selection with its own ciphertext and its least count, has a
payload where the ballot has one, and verifies. Otherwise the report has something on every item
that could not be opened, and on no other. -/
theorem decryptBallot_ok_iff
    (hdealt : (Dealer.generate draw manifest n quorum ttl).run source = some (.ok e, rest))
    (hnew : Decryptor.new e.context e.roster trustees config = .ok d)
    (hstaff : e.Staffs s trustees)
    (hquorum : d.context.quorum.toNat ≤
      (d.trustees.filter fun t => (c t.id).answers (s t.id)).length)
    (hfresh : Fresh d c s) (metrics : Metrics) (queries : List Element) (ballot : EncryptedBallot)
    (hsize : (ballotTexts ballot).length ≤ UInt64.size) :
    ∃ outcome, ((decryptBallot d (Household.transport c) ballot
        ⟨metrics, d.startLog.ask queries⟩).run s).1.1 = outcome ∧
      ((∃ opened, outcome = .ok opened) ↔
        ∀ contest ∈ ballot.contests, (e.opener d c s).OpensContest contest) ∧
      (∀ opened, outcome = .ok opened → opened.ballotId = ballot.ballotId ∧
        List.Forall₂ (e.opener d c s).ContestOpened ballot.contests opened.contests ∧
          opened.verify e.context = .ok ()) ∧
      (∀ failure, outcome = .error failure →
        failure = .plaintext (ballot.contests.flatMap (e.opener d c s).contestProblems)) ∧
      (∀ ciphertext, (e.opener d c s).selectionProblems ciphertext = [] ↔
        (e.opener d c s).OpensSelection ciphertext) ∧
      ∀ contestId data, (e.opener d c s).dataProblems contestId data = [] ↔
        (e.opener d c s).OpensData contestId data := by
  have hreasons := reasons_opener_ne_nil hdealt hnew hstaff hquorum
  obtain ⟨record, hrun, hitems⟩ :=
    exists_delivered hdealt hnew hstaff hquorum hfresh metrics (ballotTexts ballot) hsize
  have hopening := (looks_opener (c := c) (s := s) hnew queries).openBallot hreasons
    (Decryptor.new_eq_ok hnew).1 hitems
  have houtcome := decryptAndOpen_of_run hrun (d.startLog.ask queries) (openBallot d ballot)
  have hselection : ∀ ciphertext, (e.opener d c s).selectionProblems ciphertext = [] ↔
      (e.opener d c s).OpensSelection ciphertext :=
    fun _ => Opener.selectionProblems_eq_nil hreasons
  have hdata : ∀ contestId data, (e.opener d c s).dataProblems contestId data = [] ↔
      (e.opener d c s).OpensData contestId data :=
    fun _ _ => Opener.dataProblems_eq_nil hreasons
  refine ⟨_, houtcome, ?_⟩
  rcases hopening with ⟨contests, hok, hopened, hopens⟩ | ⟨herror, hfails⟩
  · rw [hok]
    refine ⟨⟨fun _ => hopens, fun _ => ⟨_, rfl⟩⟩, ?_, ?_, hselection, hdata⟩
    · intro opened h
      obtain rfl := Except.ok.inj h
      have hverify : DecryptedBallot.verify ⟨ballot.ballotId, contests, record.guardianIds⟩
          (e.opener d c s).context = .ok () := Opener.verify_of_contestOpened hopened
      exact ⟨rfl, hopened, hverify⟩
    · intro failure h
      cases h
  · rw [herror]
    refine ⟨⟨?_, fun h => absurd h hfails⟩, ?_, ?_, hselection, hdata⟩
    · rintro ⟨opened, h⟩
      cases h
    · intro opened h
      cases h
    · intro failure h
      exact (Except.error.inj h).symm

/-- Three contests with two selections, one and none, the first one with a payload. -/
theorem decryptBallot_ok_iff_two_of_three :
    ∃ (e : DealtElection) (d : Decryptor) (ballot : EncryptedBallot) (opened : DecryptedBallot),
      e.secretKey = ⟨9⟩ ∧
        VoteSheet.Encrypts e.context ⟨"ballot", [[1, 0], [3], []], [some [104, 105]]⟩ ballot ∧
        ((decryptBallot d (Household.transport straggling) ballot
          ⟨{}, d.startLog.ask [.generator]⟩).run e.household).1.1 = .ok opened ∧
        opened.contests.map (fun c => c.contestData.map (·.data)) =
          [some [104, 105], none, none] ∧
        opened.verify e.context = .ok () := by
  obtain ⟨e, d, hdealt, hsecret, hnew, hstaff, -, hquorum, hfresh⟩ :=
    exists_committee "manifest" {}
  have hkey := Dealer.jointPublicKey_of_generate hdealt
  have hbound : (e.opener d straggling e.household).bound = 1000 := by
    rw [DealtElection.opener, (Decryptor.new_eq_ok hnew).2.2.2]
  obtain ⟨ballot, hballot, hsize⟩ : ∃ ballot, (Dealer.encryptBallot countUp e.context "ballot"
      [[1, 0], [3], []] [some [104, 105]]).run 12 = some (ballot, 16) ∧
        (ballotTexts ballot).length ≤ UInt64.size :=
    ⟨_, rfl, (by decide : 4 ≤ UInt64.size)⟩
  have hencrypts : VoteSheet.Encrypts e.context ⟨"ballot", [[1, 0], [3], []], [some [104, 105]]⟩
      ballot := ⟨ℕ, countUp, 12, 16, hballot⟩
  have hlength : ∀ data ∈ [some ([104, 105] : Bytes)], ∀ message ∈ data,
      message.length < 2 ^ 32 := by
    decide
  obtain ⟨outcome, hrun, hok, hopened, -⟩ := decryptBallot_ok_iff hdealt hnew hstaff hquorum hfresh
    {} [.generator] ballot hsize
  obtain ⟨opened, rfl⟩ := hok.2 (Opener.opensContest_of_encrypts
    (o := e.opener d straggling e.household) hkey hencrypts hlength (by simp [hbound]))
  obtain ⟨-, hcontests, hverify⟩ := hopened opened rfl
  exact ⟨e, d, ballot, opened, hsecret, hencrypts, hrun,
    Opener.payloads_of_encrypts (o := e.opener d straggling e.household) hkey hencrypts hlength
      hcontests, hverify⟩

end Dealt

end ThresholdElGamal
