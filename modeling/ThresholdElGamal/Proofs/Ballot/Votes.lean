import ThresholdElGamal.Proofs.Ballot.Accumulation
import ThresholdElGamal.Proofs.Ciphertext.ElGamal
import ThresholdElGamal.Proofs.Election.Dealing

/-! # Adding up votes

A ballot that was encrypted from a sheet of votes holds these votes, whatever randomness was drawn.
Ballots from sheets of one shape are added up, and the sum holds the total for every selection.
-/

namespace ThresholdElGamal

/-- What is cast on a ballot: a row of votes for each contest, and payloads for some contests. -/
structure VoteSheet where
  ballotId : String
  votes : List (List UInt32)
  contestData : List (Option Bytes)

namespace VoteSheet

open Dealer

/-- The ballot was encrypted from the sheet with some random stream. -/
def Encrypts (context : ElectionContext) (sheet : VoteSheet) (ballot : EncryptedBallot) : Prop :=
  ∃ (σ : Type) (draw : StateT σ Option Exponent) (source rest : σ),
    (encryptBallot draw context sheet.ballotId sheet.votes sheet.contestData).run source =
      some (ballot, rest)

def shape (sheet : VoteSheet) : List ℕ := sheet.votes.map List.length

def vote (sheet : VoteSheet) (i j : ℕ) : ℕ := ((sheet.votes.getD i []).getD j 0).toNat

/-- The votes for a selection of a contest on all sheets. -/
def total (sheets : List VoteSheet) (i j : ℕ) : ℕ := (sheets.map fun sheet => sheet.vote i j).sum

/-- The totals under the ids of contests and selections, for the shape of the first sheet. -/
def results : List VoteSheet → List (String × List (String × ℕ))
  | [] => []
  | sheet :: sheets => sheet.shape.zipIdx.map fun (count, i) =>
    (contestId i, (List.range count).map fun j => (selectionId j, total (sheet :: sheets) i j))

/-- The layout of the ballots from sheets of a shape. -/
def layoutOf (shape : List ℕ) : List (String × List String) :=
  shape.zipIdx.map fun (count, i) => (contestId i, (List.range count).map selectionId)

variable {context : ElectionContext} {sheet : VoteSheet} {ballot : EncryptedBallot}

/-- A source that never runs dry encrypts every sheet. -/
theorem exists_encrypts (context : ElectionContext) (sheet : VoteSheet) :
    ∃ ballot, Encrypts context sheet ballot := by
  have hcontest : ∀ (row : List UInt32 × ℕ) (s : Unit), ∃ c s',
      (encryptContest (pure .one : StateT Unit Option Exponent) context row.2 row.1
        sheet.contestData[row.2]?.join).run s = some (c, s') ∧ True := by
    intro row s
    cases sheet.contestData[row.2]?.join <;> simp [encryptContest, List.mapM_pure]
  obtain ⟨contests, rest, hcontests, -⟩ := mapM_total hcontest sheet.votes.zipIdx ()
  exact ⟨⟨sheet.ballotId, contests⟩, Unit, pure .one, (), rest, by simp [encryptBallot, hcontests]⟩

def payload (sheet : VoteSheet) (i : ℕ) : Option Bytes := sheet.contestData[i]?.join

theorem length_payload_lt {bound : ℕ}
    (h : ∀ data ∈ sheet.contestData, ∀ message ∈ data, message.length < bound) (i : ℕ) :
    ∀ message ∈ sheet.payload i, message.length < bound := by
  intro message hmessage
  rw [Option.mem_def, payload, Option.join_eq_some_iff] at hmessage
  exact h _ (List.mem_of_getElem? hmessage) message rfl

/-- The contest was encrypted from the votes and the payload at a position. -/
structure EncryptsContest (context : ElectionContext) (sheet : VoteSheet)
    (row : List UInt32 × ℕ) (c : EncryptedContest) : Prop where
  contestId : c.contestId = contestId row.2
  selections : List.Forall₂ (fun v s => s.selectionId = selectionId v.2 ∧
    ∃ nonce, s.ciphertext = .encrypt context.jointPublicKey v.1 nonce) row.1.zipIdx c.selections
  contestData : Option.Rel (fun message x => ∃ nonce, x = .encrypt context.jointPublicKey
    context.extendedBaseHash contestDataLabel c.contestId message nonce)
      (sheet.payload row.2) c.contestData

theorem Encrypts.contests (h : Encrypts context sheet ballot) :
    List.Forall₂ (EncryptsContest context sheet) sheet.votes.zipIdx ballot.contests := by
  obtain ⟨σ, draw, source, rest, h⟩ := h
  simp only [encryptBallot, run_bind_eq_some, run_pure_eq_some] at h
  obtain ⟨contests, s₁, hcontests, rfl, -⟩ := h
  refine (forall₂_of_mapM hcontests).imp ?_
  rintro ⟨row, i⟩ c ⟨before, after, hc⟩
  simp only [encryptContest, run_bind_eq_some, run_pure_eq_some] at hc
  obtain ⟨selections, s₂, hselections, data, s₃, hdata, rfl, -⟩ := hc
  refine ⟨rfl, (forall₂_of_mapM hselections).imp ?_, ?_⟩
  · rintro ⟨v, j⟩ s ⟨before', after', hs⟩
    simp only [run_bind_eq_some, run_pure_eq_some] at hs
    obtain ⟨nonce, s₄, -, rfl, -⟩ := hs
    exact ⟨rfl, nonce, rfl⟩
  · change Option.Rel _ sheet.contestData[i]?.join data
    generalize sheet.contestData[i]?.join = message? at hdata
    cases rel_of_mapM hdata with
    | none => exact .none
    | some hx =>
      obtain ⟨before', after', hx⟩ := hx
      simp only [run_bind_eq_some, run_pure_eq_some] at hx
      obtain ⟨nonce, s₄, -, rfl, -⟩ := hx
      exact .some ⟨nonce, rfl⟩

theorem exists_of_forall₂ {α β : Type} {R : α → β → Prop} {xs : List α} {ys : List β}
    (h : List.Forall₂ R xs ys) {i : ℕ} {y : β} (hy : ys[i]? = some y) :
    ∃ x, xs[i]? = some x ∧ R x y := by
  obtain ⟨hi, rfl⟩ := List.getElem?_eq_some_iff.1 hy
  have hi' : i < xs.length := h.length_eq ▸ hi
  exact ⟨xs[i], List.getElem?_eq_getElem hi', h.get hi' hi⟩

theorem exists_of_forall₂_zipIdx {α β : Type} {R : α × ℕ → β → Prop} {xs : List α} {ys : List β}
    (h : List.Forall₂ R xs.zipIdx ys) {i : ℕ} {y : β} (hy : ys[i]? = some y) :
    ∃ x, xs[i]? = some x ∧ R (x, i) y := by
  obtain ⟨⟨x, j⟩, hx, hR⟩ := exists_of_forall₂ h hy
  simp only [List.getElem?_zipIdx, Option.map_eq_some_iff, Prod.mk.injEq] at hx
  obtain ⟨x, hx, rfl, rfl⟩ := hx
  rw [Nat.zero_add] at hR
  exact ⟨x, hx, hR⟩

theorem map_snd_zipIdx {α : Type} (l : List α) : l.zipIdx.map Prod.snd = List.range l.length := by
  rw [List.zipIdx_map_snd, List.range_eq_range']

theorem Encrypts.layout (h : Encrypts context sheet ballot) :
    ballot.layout = layoutOf sheet.shape := by
  symm
  rw [EncryptedBallot.layout, layoutOf, shape, List.zipIdx_map, List.map_map,
    ← List.forall₂_eq_eq_eq, List.forall₂_map_left_iff, List.forall₂_map_right_iff]
  refine h.contests.imp ?_
  rintro ⟨row, i⟩ c ⟨hid, hselections, -⟩
  have hids : (List.range row.length).map selectionId = c.selections.map (·.selectionId) := by
    rw [← map_snd_zipIdx, List.map_map, ← List.forall₂_eq_eq_eq, List.forall₂_map_left_iff,
      List.forall₂_map_right_iff]
    exact hselections.imp fun _ _ hs => hs.1.symm
  rw [EncryptedContest.layout, hid, ← hids]
  rfl

/-- Every ciphertext of the ballot holds the vote in its place. -/
theorem Encrypts.holds (hkey : context.jointPublicKey.IsTorsion)
    (h : Encrypts context sheet ballot) {i j : ℕ} {c : Ciphertext}
    (hc : ballot.cell? i j = some c) : c.Holds context.jointPublicKey (sheet.vote i j) := by
  simp only [EncryptedBallot.cell?, Option.map_eq_some_iff, Option.bind_eq_some_iff] at hc
  obtain ⟨s, ⟨contest, hcontest, hs⟩, rfl⟩ := hc
  obtain ⟨row, hrow, -, hselections, -⟩ := exists_of_forall₂_zipIdx h.contests hcontest
  obtain ⟨v, hv, -, nonce, hciphertext⟩ := exists_of_forall₂_zipIdx hselections hs
  have hvote : sheet.vote i j = v.toNat := by
    simp [vote, List.getD_eq_getElem?_getD, hrow, hv]
  rw [hvote, hciphertext]
  exact Ciphertext.holds_encrypt hkey v nonce

section Sheets

variable {sheets : List VoteSheet} {ballots : List EncryptedBallot} {t : EncryptedTally} {i j n : ℕ}

theorem holds_foldl (hkey : context.jointPublicKey.IsTorsion)
    (h : List.Forall₂ (Encrypts context) sheets ballots)
    (hlayout : ∀ b ∈ ballots, b.layout = t.layout)
    (ht : ∀ c, t.cell? i j = some c → c.Holds context.jointPublicKey n) {c : Ciphertext}
    (hc : (ballots.foldl EncryptedTally.addBallot t).cell? i j = some c) :
    c.Holds context.jointPublicKey (n + total sheets i j) := by
  induction h generalizing t n with
  | nil => exact ht c hc
  | @cons sheet b sheets ballots hb _ ih =>
    rw [List.forall_mem_cons] at hlayout
    obtain ⟨hfirst, hothers⟩ := hlayout
    rw [List.foldl_cons] at hc
    rw [total, List.map_cons, List.sum_cons, ← Nat.add_assoc]
    refine ih ?_ ?_ hc
    · exact fun b' hb' => (hothers b' hb').trans (EncryptedTally.layout_addBallot hfirst).symm
    · intro c' hc'
      rw [EncryptedTally.cell?_addBallot hfirst] at hc'
      simp only [Option.bind_eq_some_iff, Option.map_eq_some_iff] at hc'
      obtain ⟨sum, hsum, vote, hvote, rfl⟩ := hc'
      exact (ht sum hsum).add hkey (hb.holds hkey hvote)

/-- The contest holds the counts of a row under their ids. -/
def RowHolds (publicKey : Element) (c : ContestTally) (row : String × List (String × ℕ)) : Prop :=
  c.contestId = row.1 ∧ List.Forall₂ (fun s cell => s.selectionId = cell.1 ∧
    s.ciphertext.Holds publicKey cell.2) c.selections row.2

theorem rowHolds_of_cells {publicKey : Element} {c : ContestTally} {count : ℕ} {f : ℕ → ℕ}
    (hlayout : c.layout = (contestId i, (List.range count).map selectionId))
    (hcells : ∀ (j : ℕ) (s : EncryptedSelection), c.selections[j]? = some s →
      s.ciphertext.Holds publicKey (f j)) :
    RowHolds publicKey c (contestId i, (List.range count).map fun j => (selectionId j, f j)) := by
  rw [ContestTally.layout, Prod.mk.injEq] at hlayout
  obtain ⟨hid, hids⟩ := hlayout
  have hlength : c.selections.length = count := by simpa using congrArg List.length hids
  refine ⟨hid, List.forall₂_iff_get.2 ⟨by simpa using hlength, ?_⟩⟩
  intro j hj hj'
  have hselection := congrArg (·[j]?) hids
  simp only [List.getElem?_map, List.getElem?_eq_getElem hj, List.getElem?_range (hlength ▸ hj),
    Option.map_some, Option.some_inj] at hselection
  simp only [List.get_eq_getElem, List.getElem_map, List.getElem_range]
  exact ⟨hselection, hcells j _ (List.getElem?_eq_getElem hj)⟩

/-- A tally in the layout of a shape holds what every place of it holds. -/
theorem rowsHold_of_cells {publicKey : Element} {shape : List ℕ} {f : ℕ → ℕ → ℕ}
    (hlayout : t.layout = layoutOf shape)
    (hcells : ∀ i j c, t.cell? i j = some c → c.Holds publicKey (f i j)) :
    List.Forall₂ (RowHolds publicKey) t.contests (shape.zipIdx.map fun ci =>
      (contestId ci.2, (List.range ci.1).map fun j => (selectionId j, f ci.2 j))) := by
  rw [EncryptedTally.layout, layoutOf] at hlayout
  have hlength : t.contests.length = shape.length := by simpa using congrArg List.length hlayout
  refine List.forall₂_iff_get.2 ⟨by simpa using hlength, ?_⟩
  intro i hi hi'
  have hcontest := congrArg (·[i]?) hlayout
  simp only [List.getElem?_map, List.getElem?_eq_getElem hi, List.getElem?_zipIdx,
    List.getElem?_eq_getElem (hlength ▸ hi), Option.map_some, Option.some_inj, zero_add]
    at hcontest
  simp only [List.get_eq_getElem, List.getElem_map, List.getElem_zipIdx, zero_add]
  refine rowHolds_of_cells hcontest ?_
  intro j s hs
  refine hcells i j _ ?_
  rw [EncryptedTally.cell?, List.getElem?_eq_getElem hi, Option.bind_some, hs, Option.map_some]

/-- Ballots from sheets of one shape are added up to a tally that holds the results. -/
theorem exists_accumulated (hkey : context.jointPublicKey.IsTorsion)
    (h : List.Forall₂ (Encrypts context) sheets ballots) {shape : List ℕ}
    (hshape : ∀ sheet ∈ sheets, sheet.shape = shape) :
    ∃ t, EncryptedTally.accumulate ballots = .ok t ∧
      List.Forall₂ (RowHolds context.jointPublicKey) t.contests (results sheets) := by
  have hlayout : ∀ b ∈ ballots, b.layout = layoutOf shape := by
    intro b hb
    obtain ⟨i, hi⟩ := List.mem_iff_getElem?.1 hb
    obtain ⟨sheet, hsheet, hencrypts⟩ := exists_of_forall₂ h hi
    rw [hencrypts.layout, hshape sheet (List.mem_of_getElem? hsheet)]
  cases h with
  | nil => exact ⟨⟨[]⟩, rfl, .nil⟩
  | @cons sheet first sheets ballots hfirst hrest =>
    have hblank : ∀ b ∈ first :: ballots, b.layout = (EncryptedTally.blank first).layout := by
      intro b hb
      rw [EncryptedTally.layout_blank, hlayout b hb, hlayout first List.mem_cons_self]
    refine ⟨_, EncryptedTally.accumulate_eq_ok.2 ⟨?_, rfl⟩, ?_⟩
    · intro b hb
      rw [hblank b hb, EncryptedTally.layout_blank]
    · refine rowsHold_of_cells ?_ ?_
      · rw [EncryptedTally.layout_foldl hblank, EncryptedTally.layout_blank, hfirst.layout]
      · intro i j c hc
        have hsum := holds_foldl (n := 0) hkey (.cons hfirst hrest) hblank ?_ hc
        · rwa [zero_add] at hsum
        · intro c' hc'
          rw [EncryptedTally.cell?_blank, Option.map_eq_some_iff] at hc'
          obtain ⟨-, -, rfl⟩ := hc'
          exact Ciphertext.holds_zero

end Sheets

end VoteSheet

end ThresholdElGamal
