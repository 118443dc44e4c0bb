import Mathlib.Data.List.Basic
import ThresholdElGamal.Json.Record
import ThresholdElGamal.Proofs.Json.RoundTrip

/-! # Records lose nothing

The members of a printed record have distinct keys, so that each field finds its own member, also
when the record has more members than the reader asks for.
-/

namespace ThresholdElGamal.Json

variable {α : Type}

namespace Slot

@[simp]
theorem required_given (read : Value → Option α) (v : Value) :
    (Slot.given v).required read = read v := rfl

@[simp]
theorem orDefault_given (default : α) (read : Value → Option α) (v : Value) :
    (Slot.given v).orDefault default read = read v := rfl

@[simp]
theorem orAbsent_given (absent : α) (read : Value → Option α) (v : Value) :
    (Slot.given v).orAbsent absent read = read v := rfl

end Slot

namespace Value

variable {members fields : List (String × Value)} {m : String × Value}
  {keyed : List (Key × Value)}

@[simp]
theorem canonical_text (s : String) : (text s).Canonical := trivial

theorem canonical_array {items : List Value} :
    (array items).Canonical ↔ ∀ v ∈ items, v.Canonical := by
  rw [Canonical]
  induction items with
  | nil => simp [ItemsCanonical]
  | cons v vs ih => simp [ItemsCanonical, ih]

@[simp]
theorem canonical_record : (record members).Canonical ↔ ∀ m ∈ members, m.2.Canonical := by
  rw [record, Canonical]
  induction members with
  | nil => simp [MembersCanonical]
  | cons m members ih =>
    rw [List.map_cons, MembersCanonical, ih, List.forall_mem_cons]
    exact and_iff_right rfl

theorem membersAt_cons (name : String) :
    membersAt name ((Key.ofText m.1, m.2) :: keyed) =
      if m.1 = name then m.2 :: membersAt name keyed else membersAt name keyed := by
  by_cases h : m.1 = name <;> simp [membersAt, Key.ofText, h]

theorem membersAt_record_of_not_mem {name : String} (hname : name ∉ members.map (·.1)) :
    membersAt name (members.map fun m => (Key.ofText m.1, m.2)) = [] := by
  induction members with
  | nil => rfl
  | cons m members ih =>
    rw [List.map_cons, List.mem_cons, not_or] at hname
    rw [List.map_cons, membersAt_cons, if_neg (Ne.symm hname.1), ih hname.2]

theorem membersAt_record (hnodup : (members.map (·.1)).Nodup) (hm : m ∈ members) :
    membersAt m.1 (members.map fun m => (Key.ofText m.1, m.2)) = [m.2] := by
  induction members with
  | nil => cases hm
  | cons first members ih =>
    obtain ⟨hfirst, hrest⟩ := List.nodup_cons.1 hnodup
    rw [List.map_cons, membersAt_cons]
    rcases List.mem_cons.1 hm with rfl | hm
    · rw [if_pos rfl, membersAt_record_of_not_mem hfirst]
    · have hne : first.1 ≠ m.1 := fun h => hfirst (List.mem_map.2 ⟨m, hm, h.symm⟩)
      rw [if_neg hne, ih hrest hm]

theorem slots?_record (hnodup : (members.map (·.1)).Nodup) (hfields : ∀ m ∈ fields, m ∈ members) :
    (record members).slots? (fields.map (·.1)) = some (fields.map fun m => .given m.2) := by
  have htexts : (members.map fun m => (Key.ofText m.1, m.2)).all (·.1.text.isSome) = true := by
    simp [Key.ofText]
  rw [record, slots?, if_pos htexts]
  induction fields with
  | nil => rfl
  | cons m fields ih =>
    rw [List.forall_mem_cons] at hfields
    have hslot : slotOf (members.map fun m => (Key.ofText m.1, m.2)) m.1 = some (.given m.2) := by
      rw [slotOf, membersAt_record hnodup hfields.1]
    rw [List.map_cons, List.mapM_cons, hslot, ih hfields.2]
    rfl

/-- Further members do not disturb the reading of a record. -/
theorem read_record_among (fields : List (String × Value)) {read : List Slot → Option α}
    {names : List String} {a : α} (hnames : names = fields.map (·.1))
    (hnodup : (members.map (·.1)).Nodup) (hfields : ∀ m ∈ fields, m ∈ members)
    (hread : read (fields.map fun m => .given m.2) = some a) :
    (record members).slots? names >>= read = some a := by
  rw [hnames, slots?_record hnodup hfields]
  exact hread

theorem read_record {read : List Slot → Option α} {names : List String} {a : α}
    (hnames : names = members.map (·.1)) (hnodup : names.Nodup)
    (hread : read (members.map fun m => .given m.2) = some a) :
    (record members).slots? names >>= read = some a :=
  read_record_among members hnames (hnames ▸ hnodup) (fun _ hm => hm) hread

end Value

end ThresholdElGamal.Json
