import Mathlib.Tactic.SplitIfs
import ThresholdElGamal.Json.Parse
import ThresholdElGamal.Json.Print
import ThresholdElGamal.Proofs.Bytes.Hex

/-! # Numbers and string literals lose nothing

A printed number is read back when what follows cannot continue it. A printed string literal is
read back character by character: each character is one piece, escaped exactly when it has to be.
-/

namespace ThresholdElGamal.Json

variable {n : Nat} {c : Char} {ds rest : List Char}

/-- Nothing at the start of a text continues a number in front of it. -/
def Stops (rest : List Char) : Prop :=
  ∀ c ∈ rest.head?, c.isDigit = false ∧ c ≠ '.' ∧ c ≠ 'e' ∧ c ≠ 'E'

theorem Stops.not_digit (hrest : Stops rest) : ∀ c ∈ rest.head?, c.isDigit = false :=
  fun c hc => (hrest c hc).1

theorem stops_nil : Stops [] := by
  simp [Stops]

theorem stops_cons (h : c.isDigit = false ∧ c ≠ '.' ∧ c ≠ 'e' ∧ c ≠ 'E') : Stops (c :: rest) := by
  simpa [Stops] using h

/-! ### Digits -/

theorem isDigit_digit (h : n < 10) : (Char.ofNat (48 + n)).isDigit = true := by
  have hall : ∀ n < 10, (Char.ofNat (48 + n)).isDigit = true := by decide
  exact hall n h

theorem toNat_digit (h : n < 10) : (Char.ofNat (48 + n)).toNat - 48 = n := by
  have hall : ∀ n < 10, (Char.ofNat (48 + n)).toNat - 48 = n := by decide
  exact hall n h

theorem digit_ne (hc : c.isDigit = false) (h : n < 10) : Char.ofNat (48 + n) ≠ c := by
  rintro rfl
  simp [isDigit_digit h] at hc

theorem pushNat_of_lt (h : n < 10) : pushNat n rest = Char.ofNat (48 + n) :: rest := by
  rw [pushNat, if_pos h, Nat.mod_eq_of_lt h]

theorem pushNat_of_not_lt (h : ¬n < 10) :
    pushNat n rest = pushNat (n / 10) (Char.ofNat (48 + n % 10) :: rest) := by
  rw [pushNat, if_neg h]

theorem ofDigits_pushNat (n : Nat) (rest : List Char) :
    ofDigits (pushNat n rest) = rest.foldl (fun n d => n * 10 + (d.toNat - 48)) n := by
  induction n, rest using pushNat.induct with
  | case1 n rest h =>
    rw [pushNat_of_lt h, ofDigits, List.foldl_cons, toNat_digit h, Nat.zero_mul, Nat.zero_add]
  | case2 n rest digit h ih =>
    rw [pushNat_of_not_lt h, ih, List.foldl_cons, toNat_digit (Nat.mod_lt n (by decide)),
      Nat.div_add_mod']

theorem ofDigits_printNat (n : Nat) : ofDigits (printNat n) = n :=
  ofDigits_pushNat n []

theorem isDigit_pushNat (n : Nat) (hrest : ∀ c ∈ rest, c.isDigit = true) :
    ∀ c ∈ pushNat n rest, c.isDigit = true := by
  induction n, rest using pushNat.induct with
  | case1 n rest h =>
    rw [pushNat_of_lt h]
    exact List.forall_mem_cons.2 ⟨isDigit_digit h, hrest⟩
  | case2 n rest digit h ih =>
    rw [pushNat_of_not_lt h]
    exact ih (List.forall_mem_cons.2 ⟨isDigit_digit (Nat.mod_lt n (by decide)), hrest⟩)

theorem isDigit_printNat (n : Nat) : ∀ c ∈ printNat n, c.isDigit = true :=
  isDigit_pushNat n (by simp)

theorem exists_pushNat (n : Nat) (rest : List Char) :
    ∃ m < 10, (m = 0 → n = 0) ∧ ∃ more, pushNat n rest = Char.ofNat (48 + m) :: more := by
  induction n, rest using pushNat.induct with
  | case1 n rest h => exact ⟨n, h, id, rest, pushNat_of_lt h⟩
  | case2 n rest digit h ih =>
    obtain ⟨m, hm, hzero, more, heq⟩ := ih
    refine ⟨m, hm, fun h0 => ?_, more, ?_⟩
    · have := hzero h0
      omega
    · rw [pushNat_of_not_lt h, heq]

theorem printNat_ne_nil (n : Nat) : printNat n ≠ [] := by
  obtain ⟨m, -, -, more, heq⟩ := exists_pushNat n []
  simp [printNat, heq]

theorem digits?_append (hds : ∀ c ∈ ds, c.isDigit = true) (hne : ds ≠ [])
    (hrest : ∀ c ∈ rest.head?, c.isDigit = false) : digits? (ds ++ rest) = some (ds, rest) := by
  have htake : rest.takeWhile Char.isDigit = [] := by
    cases rest with
    | nil => rfl
    | cons c rest => simp [hrest c rfl]
  have hdrop : rest.dropWhile Char.isDigit = rest := by
    cases rest with
    | nil => rfl
    | cons c rest => simp [hrest c rfl]
  rw [digits?, List.takeWhile_append_of_pos hds, List.dropWhile_append_of_pos hds, htake, hdrop,
    List.append_nil]
  cases ds with
  | nil => exact absurd rfl hne
  | cons d ds => rfl

theorem digits?_printNat (hrest : ∀ c ∈ rest.head?, c.isDigit = false) :
    digits? (printNat n ++ rest) = some (printNat n, rest) :=
  digits?_append (isDigit_printNat n) (printNat_ne_nil n) hrest

theorem integerPart?_printNat (hrest : ∀ c ∈ rest.head?, c.isDigit = false) :
    integerPart? (printNat n ++ rest) = some (printNat n, rest) := by
  obtain ⟨m, hm, hzero, more, heq⟩ := exists_pushNat n []
  by_cases h : Char.ofNat (48 + m) = '0'
  · have hm0 : m = 0 := by simpa [h] using (toNat_digit hm).symm
    rw [hzero hm0, printNat, pushNat_of_lt (by decide)]
    rfl
  · rw [← digits?_printNat hrest, printNat, heq, List.cons_append, integerPart?]
    simpa using h

/-! ### Numbers -/

theorem fraction?_of_stops (hrest : Stops rest) : fraction? rest = some ([], rest) := by
  cases rest with
  | nil => rfl
  | cons c rest =>
    rw [fraction?]
    simpa using (hrest c rfl).2.1

theorem exponent?_of_stops (hrest : Stops rest) : exponent? rest = some (none, rest) := by
  cases rest with
  | nil => rfl
  | cons c rest => simp [exponent?, (hrest c rfl).2.2]

theorem unsigned?_printNat {sign : Int} (hsign : sign = -1 → n ≠ 0) (hrest : Stops rest) :
    unsigned? sign (printNat n ++ rest) = some (.integer (sign * n), rest) := by
  have hkeep : ¬(sign = -1 ∧ n = 0) := fun h => hsign h.1 h.2
  simp [unsigned?, integerPart?_printNat hrest.not_digit, fraction?_of_stops hrest,
    exponent?_of_stops hrest, ofDigits_printNat, hkeep]

theorem exponent?_printInt (i : Int) (hrest : Stops rest) :
    exponent? ('e' :: (printInt i ++ rest)) = some (some i, rest) := by
  cases i with
  | ofNat n =>
    obtain ⟨m, hm, -, more, heq⟩ := exists_pushNat n []
    have hminus : Char.ofNat (48 + m) ≠ '-' := digit_ne rfl hm
    have hplus : Char.ofNat (48 + m) ≠ '+' := digit_ne rfl hm
    have hread := digits?_printNat (n := n) hrest.not_digit
    rw [printInt]
    rw [printNat, heq, List.cons_append] at hread ⊢
    simp [exponent?, hminus, hplus, hread, ← heq, ofDigits_pushNat]
  | negSucc n =>
    simp [printInt, exponent?, digits?_printNat hrest.not_digit, ofDigits_printNat, Int.negSucc_eq]

theorem unsigned?_decimal (sign i : Int) (hrest : Stops rest) :
    unsigned? sign (printNat n ++ 'e' :: (printInt i ++ rest)) =
      some (.decimal (sign * n) i, rest) := by
  have hwhole : integerPart? (printNat n ++ 'e' :: (printInt i ++ rest)) =
      some (printNat n, 'e' :: (printInt i ++ rest)) := integerPart?_printNat (by simp)
  simp [unsigned?, hwhole, fraction?, exponent?_printInt i hrest, ofDigits_printNat]

/-- A printed integer is read as its sign and its magnitude; only zero has no sign. -/
theorem exists_unsigned (i : Int) :
    ∃ (sign : Int) (n : Nat), (sign = -1 → n ≠ 0) ∧ sign * n = i ∧
      ∀ rest, number? (printInt i ++ rest) = unsigned? sign (printNat n ++ rest) := by
  cases i with
  | ofNat n =>
    refine ⟨1, n, by simp, Int.one_mul _, fun rest => ?_⟩
    obtain ⟨m, hm, -, more, heq⟩ := exists_pushNat n []
    have hminus : Char.ofNat (48 + m) ≠ '-' := digit_ne rfl hm
    rw [printInt, printNat, heq, List.cons_append, number?]
    simpa using hminus
  | negSucc n => exact ⟨-1, n + 1, by simp, Int.neg_one_mul _, fun rest => rfl⟩

theorem number?_integer (i : Int) (hrest : Stops rest) :
    number? (printInt i ++ rest) = some (.integer i, rest) := by
  obtain ⟨sign, n, hsign, rfl, hread⟩ := exists_unsigned i
  rw [hread, unsigned?_printNat hsign hrest]

theorem number?_decimal (m e : Int) (hrest : Stops rest) :
    number? (printInt m ++ 'e' :: (printInt e ++ rest)) = some (.decimal m e, rest) := by
  obtain ⟨sign, n, -, rfl, hread⟩ := exists_unsigned m
  rw [hread, unsigned?_decimal sign e hrest]

/-! ### String literals -/

/-- How a character is spelled inside a literal. -/
def piece (c : Char) : Piece := if needsEscape c then .unit c.toNat else .plain c

theorem codeUnit?_digits (h : n < 256) :
    codeUnit? '0' '0' (Hex.digit (n / 16)).toLower (Hex.digit (n % 16)).toLower = some n := by
  have hzero : Hex.value? '0' = some 0 := rfl
  rw [codeUnit?, hzero, Hex.value?_toLower_digit (Nat.div_lt_of_lt_mul h),
    Hex.value?_toLower_digit (Nat.mod_lt n (by decide))]
  simp [Nat.div_add_mod']

theorem pieces?_unit (h : n < 256) :
    pieces? ('\\' :: 'u' :: '0' :: '0' :: (Hex.digit (n / 16)).toLower ::
      (Hex.digit (n % 16)).toLower :: rest) =
        (pieces? rest).map fun p => (.unit n :: p.1, p.2) := by
  rw [pieces?, codeUnit?_digits h]
  exact Option.map_eq_bind.symm

theorem pieces?_escape {e : Char} (he : e ≠ 'u') (hn : shortEscape? e = some n) :
    pieces? ('\\' :: e :: rest) = (pieces? rest).map fun p => (.unit n :: p.1, p.2) := by
  rw [pieces?, hn]
  · exact Option.map_eq_bind.symm
  · rintro a b c d cs h
    cases h
    contradiction

theorem pieces?_plain (h : needsEscape c = false) :
    pieces? (c :: rest) = (pieces? rest).map fun p => (.plain c :: p.1, p.2) := by
  simp only [needsEscape, Bool.or_eq_false_iff, decide_eq_false_iff_not, beq_eq_false_iff_ne] at h
  obtain ⟨⟨hcontrol, hquote⟩, hbackslash⟩ := h
  rw [pieces?]
  · rw [if_neg (by simp [hcontrol, hbackslash])]
    exact Option.map_eq_bind.symm
  all_goals simp [hquote, hbackslash]

theorem pieces?_printChar (c : Char) (rest : List Char) :
    pieces? (printChar c ++ rest) = (pieces? rest).map fun p => (piece c :: p.1, p.2) := by
  have hunit (h : needsEscape c = true) : piece c = .unit c.toNat := if_pos h
  rw [printChar]
  split_ifs with hquote hbackslash h8 h9 h10 h12 h13 hcontrol
  · subst hquote; exact pieces?_escape (by decide) rfl
  · subst hbackslash; exact pieces?_escape (by decide) rfl
  · rw [hunit (by simp [needsEscape, h8]), h8]; exact pieces?_escape (by decide) rfl
  · rw [hunit (by simp [needsEscape, h9]), h9]; exact pieces?_escape (by decide) rfl
  · rw [hunit (by simp [needsEscape, h10]), h10]; exact pieces?_escape (by decide) rfl
  · rw [hunit (by simp [needsEscape, h12]), h12]; exact pieces?_escape (by decide) rfl
  · rw [hunit (by simp [needsEscape, h13]), h13]; exact pieces?_escape (by decide) rfl
  · rw [hunit (by simp [needsEscape, hcontrol])]
    exact pieces?_unit (by omega)
  · have hplain : needsEscape c = false := by simp [needsEscape, hquote, hbackslash, hcontrol]
    rw [piece, hplain]
    exact pieces?_plain hplain

theorem pieces?_printChars (cs rest : List Char) :
    pieces? (cs.flatMap printChar ++ '"' :: rest) = some (cs.map piece, rest) := by
  induction cs with
  | nil => rfl
  | cons c cs ih =>
    rw [List.flatMap_cons, List.append_assoc, pieces?_printChar, ih, Option.map_some,
      List.map_cons]

theorem join?_unit {ps : List Piece} (h : n < 0xD800) :
    join? (.unit n :: ps) = (join? ps).map (Char.ofNat n :: ·) := by
  have hhigh : ¬(0xD800 ≤ n ∧ n < 0xDC00) := by omega
  have hlow : ¬(0xDC00 ≤ n ∧ n < 0xE000) := by omega
  rw [join?.eq_def]
  simp only [hhigh, hlow, if_false]

theorem join?_map_piece (cs : List Char) : join? (cs.map piece) = some cs := by
  induction cs with
  | nil => rfl
  | cons c cs ih =>
    rw [List.map_cons, piece]
    split
    · next h =>
      have hlt : c.toNat < 128 := by
        simp only [needsEscape, Bool.or_eq_true, decide_eq_true_eq, beq_iff_eq] at h
        rcases h with (h | rfl) | rfl
        · omega
        · decide
        · decide
      rw [join?_unit (by omega), ih, Char.ofNat_toNat]
      rfl
    · rw [join?, ih]
      rfl

theorem isEscape_comp_piece : Piece.isEscape ∘ piece = needsEscape := by
  funext c
  cases h : needsEscape c <;> simp [piece, h, Piece.isEscape]

/-- The key whose literal is printed for a text. -/
def Key.spelled : Option String → Key
  | some s => .ofText s
  | none => ⟨none, true⟩

theorem literal?_printText (s : String) (rest : List Char) :
    literal? (s.toList.flatMap printChar ++ '"' :: rest) = some (.ofText s, rest) := by
  simp [literal?, pieces?_printChars, join?_map_piece, isEscape_comp_piece, Key.ofText]

/-- A printed literal is read back, and so is its spelling. -/
theorem exists_literal (t : Option String) :
    ∃ body, printLiteral t = '"' :: body ∧
      ∀ rest, literal? (body ++ rest) = some (Key.spelled t, rest) := by
  cases t with
  | none => exact ⟨_, rfl, fun _ => rfl⟩
  | some s =>
    refine ⟨s.toList.flatMap printChar ++ ['"'], rfl, fun rest => ?_⟩
    rw [List.append_assoc, List.singleton_append, literal?_printText, Key.spelled]

end ThresholdElGamal.Json
