import Mathlib.Algebra.BigOperators.Group.List.Basic
import ThresholdElGamal.Proofs.Ballot.Accumulation

/-! # Sums do not depend on the order

A tally is the sum of ballots when it has their layout and holds, for every selection, the product
of the pads and the product of the data of all ballots. There is one such tally at most, and ballots
of one layout are added up to it. Since products do not depend on the order, nor does the sum, and
the sum of more ballots is the sum of their sums.
-/

namespace ThresholdElGamal

namespace Ciphertext

/-- The product of the pads and the product of the data, modulo `p`. -/
def product (cs : List Ciphertext) : Ciphertext :=
  ⟨⟨(cs.map (·.pad.val)).prod % modulus⟩, ⟨(cs.map (·.data.val)).prod % modulus⟩⟩

theorem product_nil : product [] = .zero := by decide

theorem product_append (as bs : List Ciphertext) :
    product (as ++ bs) = product as + product bs := by
  simp only [product, add_def, Element.mul_def, List.map_append, List.prod_append]
  rw [← Nat.mul_mod, ← Nat.mul_mod]

theorem product_concat (cs : List Ciphertext) (c : Ciphertext) :
    product (cs ++ [c]) = product cs + c := by
  simp [product, add_def, Element.mul_def]

theorem product_perm {as bs : List Ciphertext} (h : as.Perm bs) : product as = product bs := by
  rw [product, (h.map _).prod_eq, (h.map _).prod_eq, product]

theorem foldl_add_product (done cs : List Ciphertext) :
    cs.foldl (· + ·) (product done) = product (done ++ cs) := by
  induction cs generalizing done with
  | nil => rw [List.foldl_nil, List.append_nil]
  | cons c cs ih =>
    rw [List.foldl_cons, ← product_concat, ih, List.append_assoc, List.singleton_append]

end Ciphertext

namespace EncryptedTally

instance : Add ContestTally where
  add c d := { c with selections := List.zipWith addSelection d.selections c.selections }

/-- Adds a tally of the same layout, selection by selection. -/
instance : Add EncryptedTally where
  add t u := ⟨List.zipWith (· + ·) t.contests u.contests⟩

/-- The ciphertexts of the ballots for a selection of a contest, by their positions. -/
def CellsAt (i j : ℕ) (ballots : List EncryptedBallot) (cells : List Ciphertext) : Prop :=
  List.Forall₂ (fun b c => b.cell? i j = some c) ballots cells

/-- The tally has the layout of the ballots and holds the products of their ciphertexts. -/
structure IsSum (ballots : List EncryptedBallot) (t : EncryptedTally) : Prop where
  layout : ∀ b ∈ ballots, b.layout = t.layout
  cell : ∀ i j c, t.cell? i j = some c ↔ ∃ cells, CellsAt i j ballots cells ∧ c = .product cells

variable {t u : EncryptedTally} {first : EncryptedBallot} {ballots others : List EncryptedBallot}
  {i j : ℕ} {c : Ciphertext}

theorem cell?_foldl (h : ∀ b ∈ ballots, b.layout = t.layout) :
    (ballots.foldl addBallot t).cell? i j = some c ↔
      ∃ sum cells, t.cell? i j = some sum ∧ CellsAt i j ballots cells ∧
        c = cells.foldl (· + ·) sum := by
  induction ballots generalizing t with
  | nil => simp [CellsAt, eq_comm]
  | cons b ballots ih =>
    rw [List.forall_mem_cons] at h
    obtain ⟨hb, hothers⟩ := h
    rw [List.foldl_cons, ih fun b' hb' => (hothers b' hb').trans (layout_addBallot hb).symm,
      cell?_addBallot hb]
    simp only [CellsAt, List.forall₂_cons_left_iff, Option.bind_eq_some_iff, Option.map_eq_some_iff]
    constructor
    · rintro ⟨_, cells, ⟨sum, hsum, x, hx, rfl⟩, hcells, rfl⟩
      exact ⟨sum, x :: cells, hsum, ⟨x, cells, hx, hcells, rfl⟩, rfl⟩
    · rintro ⟨sum, _, hsum, ⟨x, cells, hx, hcells, rfl⟩, rfl⟩
      exact ⟨sum + x, cells, ⟨sum, hsum, x, hx, rfl⟩, hcells, rfl⟩

theorem isSum_of_accumulate (h : accumulate (first :: ballots) = .ok t) :
    IsSum (first :: ballots) t := by
  obtain ⟨hlayout, rfl⟩ := accumulate_eq_ok.1 h
  have hblank : ∀ b ∈ first :: ballots, b.layout = (blank first).layout := fun b hb =>
    (hlayout b hb).trans (layout_blank first).symm
  refine ⟨fun b hb => (hblank b hb).trans (layout_foldl hblank).symm, ?_⟩
  intro i j c
  rw [cell?_foldl hblank, cell?_blank]
  constructor
  · rintro ⟨_, cells, hsum, hcells, rfl⟩
    obtain ⟨-, -, rfl⟩ := Option.map_eq_some_iff.1 hsum
    refine ⟨cells, hcells, ?_⟩
    rw [← Ciphertext.product_nil, Ciphertext.foldl_add_product, List.nil_append]
  · rintro ⟨cells, hcells, rfl⟩
    obtain ⟨x, _, hx, -, -⟩ := List.forall₂_cons_left_iff.1 hcells
    refine ⟨.zero, cells, Option.map_eq_some_iff.2 ⟨x, hx, rfl⟩, hcells, ?_⟩
    rw [← Ciphertext.product_nil, Ciphertext.foldl_add_product, List.nil_append]

theorem ext_cells (hlayout : t.layout = u.layout) (hcells : ∀ i j, t.cell? i j = u.cell? i j) :
    t = u := by
  have hlength : t.contests.length = u.contests.length := by
    simpa [layout] using congrArg List.length hlayout
  refine EncryptedTally.ext (List.ext_getElem hlength fun i hi hi' => ?_)
  have hcontest := congrArg (·[i]?) hlayout
  simp only [layout, List.getElem?_map, List.getElem?_eq_getElem hi, List.getElem?_eq_getElem hi',
    Option.map_some, Option.some_inj, ContestTally.layout, Prod.mk.injEq] at hcontest
  obtain ⟨hid, hids⟩ := hcontest
  have hcount : (t.contests[i]).selections.length = (u.contests[i]).selections.length := by
    simpa using congrArg List.length hids
  refine ContestTally.ext hid (List.ext_getElem hcount fun j hj hj' => ?_)
  have hselection := congrArg (·[j]?) hids
  have hcell := hcells i j
  simp only [List.getElem?_map, List.getElem?_eq_getElem hj, List.getElem?_eq_getElem hj',
    Option.map_some, Option.some_inj] at hselection
  simp only [cell?, List.getElem?_eq_getElem hi, List.getElem?_eq_getElem hi', Option.bind_some,
    List.getElem?_eq_getElem hj, List.getElem?_eq_getElem hj', Option.map_some, Option.some_inj]
    at hcell
  exact EncryptedSelection.ext hselection hcell

theorem add_def (t u : EncryptedTally) :
    t + u = ⟨List.zipWith (· + ·) t.contests u.contests⟩ := rfl

theorem add_contest_def (c d : ContestTally) :
    c + d = { c with selections := List.zipWith addSelection d.selections c.selections } := rfl

theorem cell?_add (t u : EncryptedTally) (i j : ℕ) :
    (t + u).cell? i j = (t.cell? i j).bind fun sum => (u.cell? i j).map (sum + ·) := by
  rw [add_def, cell?, cell?, cell?, List.getElem?_zipWith]
  cases t.contests[i]? with
  | none => rfl
  | some c =>
    cases u.contests[i]? with
    | none => simp
    | some d =>
      simp only [Option.bind_some, add_contest_def, List.getElem?_zipWith]
      cases c.selections[j]? <;> cases d.selections[j]? <;> simp [addSelection]

theorem layout_add_contest {c d : ContestTally} (h : c.layout = d.layout) :
    (c + d).layout = c.layout := by
  have hlength : d.selections.length = c.selections.length := by
    simpa [ContestTally.layout] using (congrArg (List.length ∘ Prod.snd) h).symm
  rw [add_contest_def, ContestTally.layout, ContestTally.layout, map_selectionId_zipWith hlength]

theorem layout_add (h : t.layout = u.layout) : (t + u).layout = t.layout := by
  rw [layout, layout, ← List.forall₂_eq_eq_eq, List.forall₂_map_left_iff,
    List.forall₂_map_right_iff] at h
  rw [add_def, layout, layout]
  generalize t.contests = cs, u.contests = ds at h
  induction h with
  | nil => rfl
  | cons hcontest _ ih =>
    rw [List.zipWith_cons_cons, List.map_cons, List.map_cons, ih, layout_add_contest hcontest]

theorem cellsAt_append {cells : List Ciphertext} : CellsAt i j (ballots ++ others) cells ↔
    ∃ front back, CellsAt i j ballots front ∧ CellsAt i j others back ∧ cells = front ++ back := by
  constructor
  · intro h
    induction ballots generalizing cells with
    | nil => exact ⟨[], cells, .nil, h, rfl⟩
    | cons b ballots ih =>
      obtain ⟨x, rest, hx, hrest, rfl⟩ := List.forall₂_cons_left_iff.1 h
      obtain ⟨front, back, hfront, hback, rfl⟩ := ih hrest
      exact ⟨x :: front, back, .cons hx hfront, hback, rfl⟩
  · rintro ⟨front, back, hfront, hback, rfl⟩
    exact List.rel_append hfront hback

namespace IsSum

theorem unique (hne : ballots ≠ []) (h : IsSum ballots t) (h' : IsSum ballots u) : t = u := by
  obtain ⟨b, hb⟩ := List.exists_mem_of_ne_nil _ hne
  refine ext_cells ((h.layout b hb).symm.trans (h'.layout b hb)) fun i j => ?_
  rw [Option.ext_iff]
  intro c
  rw [h.cell, h'.cell]

theorem perm (hperm : ballots.Perm others) (h : IsSum ballots t) : IsSum others t where
  layout b hb := h.layout b (hperm.mem_iff.2 hb)
  cell i j c := by
    rw [h.cell]
    constructor
    · rintro ⟨cells, hcells, rfl⟩
      obtain ⟨cells', hcells', hsame⟩ := List.perm_comp_forall₂ hperm.symm hcells
      exact ⟨cells', hcells', Ciphertext.product_perm hsame.symm⟩
    · rintro ⟨cells, hcells, rfl⟩
      obtain ⟨cells', hcells', hsame⟩ := List.perm_comp_forall₂ hperm hcells
      exact ⟨cells', hcells', Ciphertext.product_perm hsame.symm⟩

theorem append (h : IsSum ballots t) (h' : IsSum others u) (hlayout : t.layout = u.layout) :
    IsSum (ballots ++ others) (t + u) where
  layout := by
    rw [layout_add hlayout, List.forall_mem_append]
    exact ⟨h.layout, fun b hb => (h'.layout b hb).trans hlayout.symm⟩
  cell i j c := by
    simp only [cell?_add, Option.bind_eq_some_iff, Option.map_eq_some_iff, h.cell, h'.cell,
      cellsAt_append]
    constructor
    · rintro ⟨_, ⟨front, hfront, rfl⟩, _, ⟨back, hback, rfl⟩, rfl⟩
      exact ⟨_, ⟨front, back, hfront, hback, rfl⟩, (Ciphertext.product_append _ _).symm⟩
    · rintro ⟨_, ⟨front, back, hfront, hback, rfl⟩, rfl⟩
      exact ⟨_, ⟨front, hfront, rfl⟩, _, ⟨back, hback, rfl⟩, (Ciphertext.product_append _ _).symm⟩

end IsSum

theorem accumulate_eq_ok_iff (hne : ballots ≠ []) :
    accumulate ballots = .ok t ↔ IsSum ballots t := by
  obtain ⟨first, ballots, rfl⟩ := List.exists_cons_of_ne_nil hne
  refine ⟨isSum_of_accumulate, fun h => ?_⟩
  have hlayout : ∀ b ∈ first :: ballots, b.layout = first.layout := fun b hb =>
    (h.layout b hb).trans (h.layout first List.mem_cons_self).symm
  have hok := accumulate_eq_ok.2 ⟨hlayout, rfl⟩
  rw [hok, (isSum_of_accumulate hok).unique hne h]

theorem exists_accumulate_iff :
    (∃ t, accumulate ballots = .ok t) ↔ ∀ b ∈ ballots, ∀ b' ∈ ballots, b.layout = b'.layout := by
  cases ballots with
  | nil => exact ⟨fun _ _ hb => absurd hb List.not_mem_nil, fun _ => ⟨_, rfl⟩⟩
  | cons first ballots =>
    simp only [accumulate_eq_ok, exists_and_left, exists_eq', and_true]
    constructor
    · intro h b hb b' hb'
      rw [h b hb, h b' hb']
    · intro h b hb
      exact h b hb first List.mem_cons_self

theorem accumulate_perm (h : ballots.Perm others) :
    accumulate ballots = .ok t ↔ accumulate others = .ok t := by
  by_cases hne : ballots = []
  · subst hne
    rw [List.Perm.nil_eq h]
  · have hne' : others ≠ [] := fun hnil => hne (h.trans (hnil ▸ .refl _)).eq_nil
    rw [accumulate_eq_ok_iff hne, accumulate_eq_ok_iff hne']
    exact ⟨fun hsum => hsum.perm h, fun hsum => hsum.perm h.symm⟩

/-- Ballots are added up exactly when they have one layout. The tally is then their sum: it has the
layout and, for every selection, the product of the pads and the product of the data modulo `p`. In
another order the ballots have the same sum, or none either, and more ballots add up to the sum of
the sums. -/
theorem accumulate_exact (ballots : List EncryptedBallot) :
    ((∃ t, accumulate ballots = .ok t) ↔
        ∀ b ∈ ballots, ∀ b' ∈ ballots, b.layout = b'.layout) ∧
      (∀ t, ballots ≠ [] → (accumulate ballots = .ok t ↔ IsSum ballots t)) ∧
      (∀ others, ballots.Perm others →
        (∀ t, accumulate ballots = .ok t → accumulate others = .ok t) ∧
        ∀ problems, accumulate ballots = .error problems →
          ∃ problems', accumulate others = .error problems') ∧
      ∀ others t u, ballots ≠ [] → others ≠ [] → accumulate ballots = .ok t →
        accumulate others = .ok u → t.layout = u.layout →
          accumulate (ballots ++ others) = .ok (t + u) := by
  refine ⟨exists_accumulate_iff, fun t => accumulate_eq_ok_iff, ?_, ?_⟩
  · intro others hperm
    refine ⟨fun t => (accumulate_perm hperm).1, ?_⟩
    intro problems hproblems
    cases hothers : accumulate others with
    | ok t =>
      rw [(accumulate_perm hperm).2 hothers] at hproblems
      cases hproblems
    | error problems' => exact ⟨problems', rfl⟩
  · intro others t u hne hne' hballots hothers hlayout
    rw [accumulate_eq_ok_iff hne] at hballots
    rw [accumulate_eq_ok_iff hne'] at hothers
    exact (accumulate_eq_ok_iff (List.append_ne_nil_of_left_ne_nil hne _)).2
      (hballots.append hothers hlayout)

/-- Two ballots with numbers that are not reduced, in either order. -/
theorem accumulate_exact_unreduced :
    accumulate [⟨"b", [⟨"c", [⟨"s", ⟨⟨modulus + 3⟩, ⟨5⟩⟩⟩], none⟩]⟩,
        ⟨"a", [⟨"c", [⟨"s", ⟨⟨7⟩, ⟨modulus⟩⟩⟩], none⟩]⟩] = .ok ⟨[⟨"c", [⟨"s", ⟨⟨21⟩, ⟨0⟩⟩⟩]⟩]⟩ ∧
      accumulate [⟨"a", [⟨"c", [⟨"s", ⟨⟨7⟩, ⟨modulus⟩⟩⟩], none⟩]⟩,
        ⟨"b", [⟨"c", [⟨"s", ⟨⟨modulus + 3⟩, ⟨5⟩⟩⟩], none⟩]⟩] =
        .ok ⟨[⟨"c", [⟨"s", ⟨⟨21⟩, ⟨0⟩⟩⟩]⟩]⟩ := by
  have hb : accumulate [⟨"b", [⟨"c", [⟨"s", ⟨⟨modulus + 3⟩, ⟨5⟩⟩⟩], none⟩]⟩] =
      .ok ⟨[⟨"c", [⟨"s", ⟨⟨3⟩, ⟨5⟩⟩⟩]⟩]⟩ := by rfl
  have ha : accumulate [⟨"a", [⟨"c", [⟨"s", ⟨⟨7⟩, ⟨modulus⟩⟩⟩], none⟩]⟩] =
      .ok ⟨[⟨"c", [⟨"s", ⟨⟨7⟩, ⟨0⟩⟩⟩]⟩]⟩ := by rfl
  obtain ⟨-, -, -, hadd⟩ :=
    accumulate_exact [⟨"b", [⟨"c", [⟨"s", ⟨⟨modulus + 3⟩, ⟨5⟩⟩⟩], none⟩]⟩]
  have hboth := hadd _ _ _ (List.cons_ne_nil _ _) (List.cons_ne_nil _ _) hb ha rfl
  exact ⟨hboth, ((accumulate_exact _).2.2.1 _ (List.Perm.swap _ _ _)).1 _ hboth⟩

end EncryptedTally

end ThresholdElGamal
