import ThresholdElGamal.Proofs.Json.Literals

/-! # Printing loses nothing

The reader undoes the printer on every value whose keys are spelled as the printer spells them,
whatever its depth, its numbers and its texts. The proof follows the nesting of the value; what it
needs of the text behind a value is that it cannot continue a number.
-/

namespace ThresholdElGamal.Json

namespace Value

mutual

/-- Every key has the spelling that the printer gives it. -/
def Canonical : Value → Prop
  | .array items => ItemsCanonical items
  | .object members => MembersCanonical members
  | _ => True

def ItemsCanonical : List Value → Prop
  | [] => True
  | v :: vs => v.Canonical ∧ ItemsCanonical vs

def MembersCanonical : List (Key × Value) → Prop
  | [] => True
  | (k, v) :: ms => k = Key.spelled k.text ∧ v.Canonical ∧ MembersCanonical ms

end

variable {fuel : Nat} {c : Char} {rest cs : List Char} {k : Key} {v : Value} {vs : List Value}
  {ms : List (Key × Value)}

/-! ### How a text begins -/

/-- Spaces, and what begins or ends a value other than a number. -/
def nonNumerals : List Char :=
  [' ', '\t', '\n', '\r', 'n', 't', 'f', '"', '[', ']', '\x7b', '\x7d']

theorem digit_not_mem_nonNumerals {n : Nat} (h : n < 10) :
    Char.ofNat (48 + n) ∉ nonNumerals := by
  have hall : ∀ n < 10, Char.ofNat (48 + n) ∉ nonNumerals := by decide
  exact hall n h

theorem exists_printInt (i : Int) : ∃ c ∉ nonNumerals, ∃ more, printInt i = c :: more := by
  cases i with
  | ofNat n =>
    obtain ⟨m, hm, -, more, heq⟩ := exists_pushNat n []
    exact ⟨_, digit_not_mem_nonNumerals hm, more, heq⟩
  | negSucc n => exact ⟨'-', by decide, _, rfl⟩

theorem skipSpace_cons (h : isSpace c = false) : skipSpace (c :: cs) = c :: cs := by
  simp [skipSpace, h]

theorem isSpace_of_not_mem (h : c ∉ nonNumerals) : isSpace c = false := by
  simp_all [nonNumerals, isSpace]

theorem value?_of_not_mem (h : c ∉ nonNumerals) :
    value? (fuel + 1) (c :: cs) = number? (c :: cs) := by
  rw [value?, skipSpace_cons (isSpace_of_not_mem h)]
  simp only [nonNumerals, List.mem_cons, List.not_mem_nil, or_false, not_or] at h
  simp [h]

theorem value?_literal (t : Option String) :
    value? (fuel + 1) (printLiteral t ++ rest) = some (.string t, rest) := by
  obtain ⟨body, heq, hread⟩ := exists_literal t
  rw [heq, List.cons_append, value?, skipSpace_cons rfl]
  cases t <;> simp [hread, Key.spelled, Key.ofText]

/-- No value is printed as a space or a closing bracket, or begins with one. -/
theorem exists_print (v : Value) :
    ∃ c more, v.print = c :: more ∧ isSpace c = false ∧ c ≠ ']' := by
  have hint (i : Int) : ∃ c more, printInt i = c :: more ∧ isSpace c = false ∧ c ≠ ']' := by
    obtain ⟨c, hc, more, heq⟩ := exists_printInt i
    refine ⟨c, more, heq, isSpace_of_not_mem hc, ?_⟩
    rintro rfl
    exact hc (by decide)
  match v with
  | .null => exact ⟨_, _, rfl, rfl, by decide⟩
  | .bool true | .bool false => exact ⟨_, _, rfl, rfl, by decide⟩
  | .integer i => exact hint i
  | .decimal m e => 
    obtain ⟨c, more, heq, hc⟩ := hint m
    exact ⟨c, more ++ 'e' :: printInt e, by rw [print, heq, List.cons_append], hc⟩
  | .string t => 
    obtain ⟨body, heq, -⟩ := exists_literal t
    exact ⟨_, body, heq, rfl, by decide⟩
  | .array [] | .array (_ :: _) => exact ⟨_, _, rfl, rfl, by decide⟩
  | .object [] | .object (_ :: _) => exact ⟨_, _, rfl, rfl, by decide⟩

theorem key?_printLiteral (t : Option String) :
    key? (printLiteral t ++ ':' :: rest) = some (Key.spelled t, rest) := by
  obtain ⟨body, heq, hread⟩ := exists_literal t
  rw [heq, List.cons_append, key?, skipSpace_cons rfl]
  simp [hread, skipSpace_cons (c := ':') rfl]

theorem stops_printItems (vs : List Value) : Stops (printItems vs ++ rest) := by
  cases vs with
  | nil => exact stops_cons (by decide)
  | cons v vs => exact stops_cons (by decide)

theorem stops_printMembers (ms : List (Key × Value)) : Stops (printMembers ms ++ rest) := by
  cases ms with
  | nil => exact stops_cons (by decide)
  | cons m ms => exact stops_cons (by decide)

/-! ### Nesting -/

theorem value?_array_cons
    (hv : value? fuel (v.print ++ (printItems vs ++ rest)) = some (v, printItems vs ++ rest))
    (hvs : items? fuel (printItems vs ++ rest) = some (vs, rest)) :
    value? (fuel + 1) ('[' :: (v.print ++ (printItems vs ++ rest))) =
      some (.array (v :: vs), rest) := by
  obtain ⟨c, more, heq, hspace, hbracket⟩ := exists_print v
  rw [heq] at hv ⊢
  rw [value?, skipSpace_cons rfl]
  simp only [List.cons_append] at hv ⊢
  rw [skipSpace_cons hspace]
  simp [hbracket, hv, hvs]

theorem items?_cons
    (hv : value? fuel (v.print ++ (printItems vs ++ rest)) = some (v, printItems vs ++ rest))
    (hvs : items? fuel (printItems vs ++ rest) = some (vs, rest)) :
    items? (fuel + 1) (',' :: (v.print ++ (printItems vs ++ rest))) = some (v :: vs, rest) := by
  rw [items?, skipSpace_cons rfl]
  simp [hv, hvs]

theorem value?_object_cons (hk : k = Key.spelled k.text)
    (hv : value? fuel (v.print ++ (printMembers ms ++ rest)) = some (v, printMembers ms ++ rest))
    (hms : members? fuel (printMembers ms ++ rest) = some (ms, rest)) :
    value? (fuel + 1)
      ('\x7b' :: (printLiteral k.text ++ ':' :: (v.print ++ (printMembers ms ++ rest)))) =
      some (.object ((k, v) :: ms), rest) := by
  have hkey : key? (printLiteral k.text ++ ':' :: (v.print ++ (printMembers ms ++ rest))) =
      some (Key.spelled k.text, v.print ++ (printMembers ms ++ rest)) := key?_printLiteral k.text
  obtain ⟨body, heq, -⟩ := exists_literal k.text
  rw [heq, List.cons_append] at hkey ⊢
  rw [value?, skipSpace_cons rfl]
  simp [skipSpace_cons (c := '"') rfl, hkey, hv, hms, ← hk]

theorem members?_cons (hk : k = Key.spelled k.text)
    (hv : value? fuel (v.print ++ (printMembers ms ++ rest)) = some (v, printMembers ms ++ rest))
    (hms : members? fuel (printMembers ms ++ rest) = some (ms, rest)) :
    members? (fuel + 1)
      (',' :: (printLiteral k.text ++ ':' :: (v.print ++ (printMembers ms ++ rest)))) =
      some ((k, v) :: ms, rest) := by
  rw [members?, skipSpace_cons rfl]
  simp [key?_printLiteral, hv, hms, ← hk]

theorem exists_succ_of_print (h : v.print.length ≤ fuel) : ∃ f, fuel = f + 1 := by
  obtain ⟨c, more, heq, -⟩ := exists_print v
  rw [heq, List.length_cons] at h
  exact ⟨fuel - 1, by omega⟩

mutual

/-- The length of the printed text is fuel enough to read the value. -/
theorem value?_print : ∀ (v : Value) (fuel : Nat) (rest : List Char), v.Canonical →
    v.print.length ≤ fuel → Stops rest → value? fuel (v.print ++ rest) = some (v, rest)
  | _, 0, _, _, hfuel, _ => by
    obtain ⟨_, h⟩ := exists_succ_of_print hfuel
    cases h
  | .null, fuel + 1, rest, _, _, _ => rfl
  | .bool true, fuel + 1, rest, _, _, _ => rfl
  | .bool false, fuel + 1, rest, _, _, _ => rfl
  | .integer i, fuel + 1, rest, _, _, hrest => by
    obtain ⟨c, hc, more, heq⟩ := exists_printInt i
    have hread := number?_integer i hrest
    rw [print]
    rw [heq, List.cons_append] at hread ⊢
    rw [value?_of_not_mem hc, hread]
  | .decimal m e, fuel + 1, rest, _, _, hrest => by
    obtain ⟨c, hc, more, heq⟩ := exists_printInt m
    have hread := number?_decimal m e hrest
    rw [print, List.append_assoc, List.cons_append]
    rw [heq, List.cons_append] at hread ⊢
    rw [value?_of_not_mem hc, hread]
  | .string t, fuel + 1, rest, _, _, _ => value?_literal t
  | .array [], fuel + 1, rest, _, _, _ => rfl
  | .array (v :: vs), fuel + 1, rest, hcanonical, hfuel, _ => by
    obtain ⟨hv, hvs⟩ := hcanonical
    simp only [print, List.length_cons, List.length_append] at hfuel
    simp only [print, List.cons_append, List.append_assoc]
    exact value?_array_cons (value?_print v fuel _ hv (by omega) (stops_printItems vs))
      (items?_printItems vs fuel rest hvs (by omega))
  | .object [], fuel + 1, rest, _, _, _ => rfl
  | .object ((k, v) :: ms), fuel + 1, rest, hcanonical, hfuel, _ => by
    obtain ⟨hk, hv, hms⟩ := hcanonical
    simp only [print, List.length_cons, List.length_append] at hfuel
    simp only [print, List.cons_append, List.append_assoc]
    exact value?_object_cons hk (value?_print v fuel _ hv (by omega) (stops_printMembers ms))
      (members?_printMembers ms fuel rest hms (by omega))

theorem items?_printItems : ∀ (vs : List Value) (fuel : Nat) (rest : List Char),
    ItemsCanonical vs → (printItems vs).length ≤ fuel →
      items? fuel (printItems vs ++ rest) = some (vs, rest)
  | [], 0, _, _, hfuel => by simp [printItems] at hfuel
  | _ :: _, 0, _, _, hfuel => by simp [printItems] at hfuel
  | [], fuel + 1, rest, _, _ => rfl
  | v :: vs, fuel + 1, rest, hcanonical, hfuel => by
    obtain ⟨hv, hvs⟩ := hcanonical
    simp only [printItems, List.length_cons, List.length_append] at hfuel
    simp only [printItems, List.cons_append, List.append_assoc]
    exact items?_cons (value?_print v fuel _ hv (by omega) (stops_printItems vs))
      (items?_printItems vs fuel rest hvs (by omega))

theorem members?_printMembers : ∀ (ms : List (Key × Value)) (fuel : Nat) (rest : List Char),
    MembersCanonical ms → (printMembers ms).length ≤ fuel →
      members? fuel (printMembers ms ++ rest) = some (ms, rest)
  | [], 0, _, _, hfuel => by simp [printMembers] at hfuel
  | _ :: _, 0, _, _, hfuel => by simp [printMembers] at hfuel
  | [], fuel + 1, rest, _, _ => rfl
  | (k, v) :: ms, fuel + 1, rest, hcanonical, hfuel => by
    obtain ⟨hk, hv, hms⟩ := hcanonical
    simp only [printMembers, List.length_cons, List.length_append] at hfuel
    simp only [printMembers, List.cons_append, List.append_assoc]
    exact members?_cons hk (value?_print v fuel _ hv (by omega) (stops_printMembers ms))
      (members?_printMembers ms fuel rest hms (by omega))

end

/-- A value whose keys are spelled as printed is what its text denotes. -/
theorem parse?_toText (hv : v.Canonical) : parse? v.toText = some v := by
  have hread := value?_print v (v.print.length + 1) [] hv (Nat.le_succ _) stops_nil
  rw [List.append_nil] at hread
  simp [parse?, toText, hread, skipSpace]

end Value

end ThresholdElGamal.Json
