import ThresholdElGamal.Proofs.Ballot.Items
import ThresholdElGamal.Proofs.Ballot.Votes

/-! # Opening tallies

A tally that holds totals below `q` is opened exactly when no total exceeds the bound, each
selection with its own total; otherwise the report names the selections with larger totals. So an
honest quorum publishes the sum of the votes, or says where it is too large.
-/

namespace ThresholdElGamal

open VoteSheet

/-- The counts of an opened tally under the ids of its contests and selections. -/
def DecryptedTally.counts (tally : DecryptedTally) : List (String × List (String × ℕ)) :=
  tally.contests.map fun c =>
    (c.contestId, c.selections.map fun s => (s.selectionId, s.tally.toNat))

namespace Opening

/-- What is reported of totals that exceed the bound. -/
def excess (bound : UInt32) (rows : List (String × List (String × ℕ))) : List Problem :=
  rows.flatMap fun row => (row.2.filter fun cell => bound.toNat < cell.2).map fun cell =>
    ⟨row.1, .selection cell.1 (.noPlaintext bound)⟩

theorem excess_eq_nil {bound : UInt32} {rows : List (String × List (String × ℕ))} :
    excess bound rows = [] ↔ ∀ row ∈ rows, ∀ cell ∈ row.2, cell.2 ≤ bound.toNat := by
  simp [excess]

namespace Opener

variable {o : Opener} {flagged : Flags}

/-- The opened contest has the same selections in the same order. -/
structure TallyOpened (o : Opener) (c : ContestTally) (c' : DecryptedContestTally) : Prop where
  contestId : c'.contestId = c.contestId
  selections : List.Forall₂ o.SelectionOpened c.selections c'.selections

theorem verify_of_tallyOpened {cs : List ContestTally} {tally : DecryptedTally}
    (h : List.Forall₂ o.TallyOpened cs tally.contests) : tally.verify o.context = .ok () := by
  rw [DecryptedTally.verify, unlessProblems_eq_ok, DecryptedTally.problems]
  refine ⟨?_, rfl⟩
  generalize tally.contests = cs' at h
  induction h with
  | nil => rfl
  | cons hopened _ ih =>
    rw [List.flatMap_cons, selectionDefects_eq_nil hopened.selections, ih]
    rfl

theorem Looks.openTallyContests (hreasons : o.reasons ≠ []) {d : Decryptor}
    {cs : List ContestTally} {rest : Pending} {log : DiscreteLog} (hlooks : o.Looks d log)
    (h : List.Forall₂ (o.Delivers flagged)
      (cs.flatMap fun c => c.selections.map fun s => .elgamal s.ciphertext) rest) :
    (openTallyContests d flagged cs rest log).problems =
        (cs.flatMap fun c => (o.selectionsProblems c.selections).map (.mk c.contestId)) ∧
      ((openTallyContests d flagged cs rest log).problems = [] →
        List.Forall₂ o.TallyOpened cs (openTallyContests d flagged cs rest log).opened) := by
  induction cs generalizing rest log with
  | nil => exact ⟨rfl, fun _ => .nil⟩
  | cons c cs ih =>
    rw [List.flatMap_cons] at h
    have hselections := hlooks.openSelections hreasons h
    obtain ⟨hproblems, hopened⟩ := ih hselections.looks hselections.rest
    rw [Opening.openTallyContests, List.flatMap_cons, ← hselections.problems, ← hproblems]
    refine ⟨rfl, ?_⟩
    intro hnil
    simp only [List.append_eq_nil_iff, List.map_eq_nil_iff] at hnil
    exact .cons ⟨rfl, hselections.opened hnil.1⟩ (hopened hnil.2)

/-- The key is that of the holder and not one, so counts below `q` can be told apart. -/
structure Keyed (o : Opener) : Prop where
  key : o.context.jointPublicKey = genPow o.secretKey
  ne_one : o.context.jointPublicKey ≠ .one

section Holds

variable (hkeyed : o.Keyed) {ciphertext : Ciphertext} {n : ℕ}
  (h : ciphertext.Holds o.context.jointPublicKey n) (hn : n < order)
include hkeyed h hn

theorem Keyed.isLog : o.context.jointPublicKey.IsLog (ciphertext.decrypt o.secretKey) n := by
  rw [h.decrypt_eq hkeyed.key]
  refine Element.isLog_powNat ?_ hkeyed.ne_one hn
  rw [hkeyed.key]
  exact isResidue_genPow _

theorem Keyed.selectionProblems_eq : o.selectionProblems ciphertext =
    if n ≤ o.bound.toNat then [] else [.noPlaintext o.bound] := by
  have hlog := hkeyed.isLog h hn
  have hopens : o.OpensSelection ciphertext ↔ n ≤ o.bound.toNat := by
    constructor
    · rintro ⟨-, count, hcount, hpow⟩
      exact (hlog.2 hpow.symm).trans hcount
    · intro hle
      exact ⟨h.isResidue_pad, n, hle, hlog.1.symm⟩
  rw [selectionProblems, if_neg (by simp [h.isResidue_pad])]
  simp only [hopens]

end Holds

section Rows

variable (hkeyed : o.Keyed)
include hkeyed

theorem Keyed.selectionsProblems_eq {ss : List EncryptedSelection} {cells : List (String × ℕ)}
    (h : List.Forall₂ (fun s cell => s.selectionId = cell.1 ∧
      s.ciphertext.Holds o.context.jointPublicKey cell.2) ss cells)
    (hlt : ∀ cell ∈ cells, cell.2 < order) :
    o.selectionsProblems ss = (cells.filter fun cell => o.bound.toNat < cell.2).map fun cell =>
      .selection cell.1 (.noPlaintext o.bound) := by
  induction h with
  | nil => rfl
  | @cons s cell ss cells hs _ ih =>
    obtain ⟨hid, hholds⟩ := hs
    rw [List.forall_mem_cons] at hlt
    rw [selectionsProblems_cons, ih hlt.2, hkeyed.selectionProblems_eq hholds hlt.1, hid]
    by_cases hle : cell.2 ≤ o.bound.toNat
    · rw [if_pos hle, List.filter_cons_of_neg (by simpa using hle)]
      rfl
    · rw [if_neg hle, List.filter_cons_of_pos (by simpa using hle)]
      rfl

theorem Keyed.cells_eq {ss : List EncryptedSelection} {cells : List (String × ℕ)}
    {ts : List DecryptedSelection} (h : List.Forall₂ (fun s cell => s.selectionId = cell.1 ∧
      s.ciphertext.Holds o.context.jointPublicKey cell.2) ss cells)
    (hlt : ∀ cell ∈ cells, cell.2 < order) (hopened : List.Forall₂ o.SelectionOpened ss ts) :
    ts.map (fun t => (t.selectionId, t.tally.toNat)) = cells := by
  induction h generalizing ts with
  | nil =>
    cases hopened
    rfl
  | @cons s cell ss cells hs _ ih =>
    obtain ⟨hid, hholds⟩ := hs
    rw [List.forall_mem_cons] at hlt
    cases hopened with
    | @cons _ t _ ts ht hts =>
      have hcount := ht.count.unique (hkeyed.isLog hholds hlt.1)
      rw [List.map_cons, ih hlt.2 hts, ht.selectionId, hid, hcount]

variable {cs : List ContestTally} {rows : List (String × List (String × ℕ))}
  (h : List.Forall₂ (RowHolds o.context.jointPublicKey) cs rows)
  (hlt : ∀ row ∈ rows, ∀ cell ∈ row.2, cell.2 < order)
include h hlt

theorem Keyed.problems_eq_excess :
    (cs.flatMap fun c => (o.selectionsProblems c.selections).map (.mk c.contestId)) =
      excess o.bound rows := by
  induction h with
  | nil => rfl
  | cons hrow _ ih =>
    obtain ⟨hid, hcells⟩ := hrow
    rw [List.forall_mem_cons] at hlt
    rw [excess, List.flatMap_cons, List.flatMap_cons, ih hlt.2,
      hkeyed.selectionsProblems_eq hcells hlt.1, hid, List.map_map]
    rfl

theorem Keyed.counts_eq {tally : DecryptedTally}
    (hopened : List.Forall₂ o.TallyOpened cs tally.contests) : tally.counts = rows := by
  rw [DecryptedTally.counts]
  generalize tally.contests = cs' at hopened
  induction h generalizing cs' with
  | nil =>
    cases hopened
    rfl
  | cons hrow _ ih =>
    obtain ⟨hid, hcells⟩ := hrow
    rw [List.forall_mem_cons] at hlt
    cases hopened with
    | cons hcontest hcontests =>
      rw [List.map_cons, ih hlt.2 _ hcontests, hkeyed.cells_eq hcells hlt.1 hcontest.selections,
        hcontest.contestId, hid]

end Rows

theorem length_tallyTexts {publicKey : Element} {tally : EncryptedTally}
    {rows : List (String × List (String × ℕ))}
    (h : List.Forall₂ (RowHolds publicKey) tally.contests rows) :
    (tallyTexts tally).length = (rows.flatMap (·.2)).length := by
  rw [tallyTexts]
  generalize tally.contests = cs at h
  induction h with
  | nil => rfl
  | cons hrow _ ih =>
    rw [List.flatMap_cons, List.flatMap_cons, List.length_append, List.length_append, ih,
      List.length_map, hrow.2.length_eq]

/-- The tally is opened to its totals, or reported with the totals that exceed the bound. -/
theorem Looks.openTally (hreasons : o.reasons ≠ []) {d : Decryptor} {tally : EncryptedTally}
    {record : Decryptions} {log : DiscreteLog} (hlooks : o.Looks d log) (hkeyed : o.Keyed)
    (h : List.Forall₂ (o.Delivers record.flagged) (tallyTexts tally) (pending record))
    {rows : List (String × List (String × ℕ))}
    (hrows : List.Forall₂ (RowHolds o.context.jointPublicKey) tally.contests rows)
    (hlt : ∀ row ∈ rows, ∀ cell ∈ row.2, cell.2 < order) :
    (∃ opened, (openTally d tally record log).1 = .ok opened ∧ opened.counts = rows ∧
        opened.verify o.context = .ok () ∧ excess o.bound rows = []) ∨
      ((openTally d tally record log).1 = .error (excess o.bound rows) ∧
        excess o.bound rows ≠ []) := by
  obtain ⟨hproblems, hopened⟩ := hlooks.openTallyContests hreasons h
  rw [hkeyed.problems_eq_excess hrows hlt] at hproblems
  rw [Opening.openTally]
  by_cases hnil : excess o.bound rows = []
  · have hnone := hproblems.trans hnil
    refine Or.inl ⟨_, unlessProblems_eq_ok.2 ⟨hnone, rfl⟩, ?_, ?_, hnil⟩
    · exact hkeyed.counts_eq hrows hlt (hopened hnone)
    · exact verify_of_tallyOpened (hopened hnone)
  · exact Or.inr ⟨unlessProblems_eq_error.2 ⟨hproblems ▸ hnil, hproblems⟩, hnil⟩

end Opener

end Opening

open Session Opening

section Dealt

variable {σ : Type} {draw : StateT σ Option Exponent} {manifest : String} {n quorum : UInt32}
  {ttl : ℕ} {source rest : σ} {e : DealtElection} {trustees : List TrusteeProfile}
  {config : DecryptionConfig} {d : Decryptor} {s : Household} {c : String → Circumstances}

/-- The tally is the sum of the votes. Ballots from sheets of one shape are added up, and an honest
quorum opens the sum exactly when no total exceeds the bound: every selection then has its total,
and the opened tally verifies. Otherwise the report names exactly the selections whose totals exceed
the bound. The totals have to be below `q`, and the joint key must not be one. -/
theorem decryptTally_eq_results
    (hdealt : (Dealer.generate draw manifest n quorum ttl).run source = some (.ok e, rest))
    (hkey : e.context.jointPublicKey ≠ .one)
    (hnew : Decryptor.new e.context e.roster trustees config = .ok d)
    (hstaff : e.Staffs s trustees)
    (hquorum : d.context.quorum.toNat ≤
      (d.trustees.filter fun t => (c t.id).answers (s t.id)).length)
    (hfresh : Fresh d c s) (metrics : Metrics) (queries : List Element) {sheets : List VoteSheet}
    {ballots : List EncryptedBallot} (hballots : List.Forall₂ (Encrypts e.context) sheets ballots)
    {shape : List ℕ} (hshape : ∀ sheet ∈ sheets, sheet.shape = shape)
    (hlt : ∀ row ∈ results sheets, ∀ cell ∈ row.2, cell.2 < order)
    (hsize : ((results sheets).flatMap (·.2)).length ≤ UInt64.size) :
    ∃ tally outcome, EncryptedTally.accumulate ballots = .ok tally ∧
      ((decryptTally d (Household.transport c) tally
        ⟨metrics, d.startLog.ask queries⟩).run s).1.1 = outcome ∧
      ((∃ opened, outcome = .ok opened) ↔
        ∀ row ∈ results sheets, ∀ cell ∈ row.2, cell.2 ≤ config.maxDlog.toNat) ∧
      (∀ opened, outcome = .ok opened →
        opened.counts = results sheets ∧ opened.verify e.context = .ok ()) ∧
      ∀ failure, outcome = .error failure →
        failure = .plaintext (excess config.maxDlog (results sheets)) := by
  have hsecret := Dealer.jointPublicKey_of_generate hdealt
  have hkeyed : (e.opener d c s).Keyed := ⟨hsecret, hkey⟩
  have htorsion : e.context.jointPublicKey.IsTorsion := by
    rw [hsecret]
    exact isTorsion_genPow _
  have hconfig : (e.opener d c s).bound = config.maxDlog := by
    rw [DealtElection.opener, (Decryptor.new_eq_ok hnew).2.2.2]
  obtain ⟨tally, haccumulate, hrows⟩ := exists_accumulated htorsion hballots hshape
  obtain ⟨record, hrun, hitems⟩ := exists_delivered hdealt hnew hstaff hquorum hfresh metrics
    (tallyTexts tally) (Opener.length_tallyTexts hrows ▸ hsize)
  have hopening := (looks_opener (c := c) (s := s) hnew queries).openTally
    (reasons_opener_ne_nil hdealt hnew hstaff hquorum) hkeyed hitems hrows hlt
  have houtcome := decryptAndOpen_of_run hrun (d.startLog.ask queries) (openTally d tally)
  rw [hconfig, excess_eq_nil] at hopening
  refine ⟨tally, _, haccumulate, houtcome, ?_⟩
  rcases hopening with ⟨opened, hok, hcounts, hverify, hle⟩ | ⟨herror, hexceeds⟩
  · rw [hok]
    refine ⟨⟨fun _ => hle, fun _ => ⟨_, rfl⟩⟩, ?_, ?_⟩
    · intro opened' h
      obtain rfl := Except.ok.inj h
      exact ⟨hcounts, hverify⟩
    · intro failure h
      cases h
  · rw [herror]
    refine ⟨⟨?_, ?_⟩, ?_, ?_⟩
    · rintro ⟨opened, h⟩
      cases h
    · intro hle
      exact absurd (excess_eq_nil.2 hle) hexceeds
    · intro opened h
      cases h
    · intro failure h
      exact (Except.error.inj h).symm

theorem decryptTally_eq_results_two_of_three :
    ∃ (e : DealtElection) (d : Decryptor) (first second : EncryptedBallot) (tally : EncryptedTally)
      (opened : DecryptedTally), EncryptedTally.accumulate [first, second] = .ok tally ∧
        ((decryptTally d (Household.transport straggling) tally
          ⟨{}, d.startLog.ask []⟩).run e.household).1.1 = .ok opened ∧
        opened.counts = [("contest-0", [("selection-0", 2), ("selection-1", 1)])] := by
  obtain ⟨e, d, hdealt, hsecret, hnew, hstaff, -, hquorum, hfresh⟩ :=
    exists_committee "manifest" {}
  have hkey : e.context.jointPublicKey ≠ .one := by
    rw [Dealer.jointPublicKey_of_generate hdealt, hsecret, genPow, Element.pow_def]
    decide
  obtain ⟨first, hfirst⟩ := exists_encrypts e.context ⟨"first", [[1, 0]], []⟩
  obtain ⟨second, hsecond⟩ := exists_encrypts e.context ⟨"second", [[1, 1]], []⟩
  have hresults : results [⟨"first", [[1, 0]], []⟩, ⟨"second", [[1, 1]], []⟩] =
      [("contest-0", [("selection-0", 2), ("selection-1", 1)])] := by
    decide
  have hshape : ∀ sheet ∈ [(⟨"first", [[1, 0]], []⟩ : VoteSheet), ⟨"second", [[1, 1]], []⟩],
      sheet.shape = [2] := by
    decide
  obtain ⟨tally, outcome, haccumulate, hrun, hok, hopened, -⟩ := decryptTally_eq_results hdealt hkey
    hnew hstaff hquorum hfresh {} [] (.cons hfirst (.cons hsecond .nil)) hshape
      (by rw [hresults]; decide) (by decide)
  obtain ⟨opened, rfl⟩ := hok.2 (by rw [hresults]; decide)
  refine ⟨e, d, first, second, tally, opened, haccumulate, hrun, ?_⟩
  rw [(hopened opened rfl).1, hresults]

end Dealt

end ThresholdElGamal
