/-! # Flags

Reasons against ciphertexts, kept under the positions of the ciphertexts in ascending order.
-/

namespace ThresholdElGamal

structure Flags where
  entries : List (UInt64 × List String)
  ascending : (entries.map (·.1)).Pairwise (· < ·)
deriving DecidableEq

namespace Flags

def empty : Flags := ⟨[], .nil⟩

/-- Changes the value under a key, or puts a new one in its place. -/
def alter (key : UInt64) (f : Option (List String) → List String) :
    List (UInt64 × List String) → List (UInt64 × List String)
  | [] => [(key, f none)]
  | (k, v) :: rest =>
    if key < k then (key, f none) :: (k, v) :: rest
    else if key = k then (k, f (some v)) :: rest
    else (k, v) :: alter key f rest

theorem mem_keys_alter {key k : UInt64} {f : Option (List String) → List String}
    {entries : List (UInt64 × List String)} :
    k ∈ (alter key f entries).map (·.1) ↔ k = key ∨ k ∈ entries.map (·.1) := by
  induction entries with
  | nil => simp [alter]
  | cons e rest ih =>
    obtain ⟨k', v⟩ := e
    simp only [alter]
    split
    · simp
    · split
      · next h => subst h; simp
      · simp only [List.map_cons, List.mem_cons, ih]
        constructor
        · rintro (h | h | h) <;> simp [h]
        · rintro (h | h | h) <;> simp [h]

theorem pairwise_alter {key : UInt64} {f : Option (List String) → List String}
    {entries : List (UInt64 × List String)} (h : (entries.map (·.1)).Pairwise (· < ·)) :
    ((alter key f entries).map (·.1)).Pairwise (· < ·) := by
  induction entries with
  | nil => simp [alter]
  | cons e rest ih =>
    obtain ⟨k, v⟩ := e
    simp only [List.map_cons, List.pairwise_cons] at h
    simp only [alter]
    split
    · next hlt =>
      simp only [List.map_cons, List.pairwise_cons, List.mem_cons]
      refine ⟨?_, h⟩
      rintro k' (rfl | hk)
      · exact hlt
      · exact UInt64.lt_trans hlt (h.1 _ hk)
    · split
      · simpa using h
      · next hnlt hne =>
        simp only [List.map_cons, List.pairwise_cons]
        refine ⟨?_, ih h.2⟩
        intro k' hk
        rcases mem_keys_alter.1 hk with rfl | hk
        · exact UInt64.lt_of_le_of_ne (UInt64.not_lt.1 hnlt) (Ne.symm hne)
        · exact h.1 _ hk

/-- Adds a reason against a position. -/
def add (flags : Flags) (key : UInt64) (reason : String) : Flags :=
  ⟨alter key (fun reasons => reasons.getD [] ++ [reason]) flags.entries,
    pairwise_alter flags.ascending⟩

/-- Puts reasons against a position in the place of those there were. -/
def set (flags : Flags) (key : UInt64) (reasons : List String) : Flags :=
  ⟨alter key (fun _ => reasons) flags.entries, pairwise_alter flags.ascending⟩

def isEmpty (flags : Flags) : Bool := flags.entries.isEmpty

def get? (flags : Flags) (position : Nat) : Option (List String) :=
  (flags.entries.find? (·.1.toNat == position)).map (·.2)

def contains (flags : Flags) (position : Nat) : Bool :=
  flags.entries.any (·.1.toNat == position)

end Flags

end ThresholdElGamal
