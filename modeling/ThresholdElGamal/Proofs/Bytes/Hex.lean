import ThresholdElGamal.Bytes.Hex

/-! # Hexadecimal text loses nothing

A number and a byte string are read back from the digits they are written with. The digits of a
number never begin like a sign or an underscore, so that none of them is taken for one.
-/

namespace ThresholdElGamal.Hex

variable {n : Nat} {rest : List Char}

theorem value?_digit (h : n < 16) : value? (digit n) = some n := by
  have hall : ∀ n < 16, value? (digit n) = some n := by decide
  exact hall n h

theorem value?_toLower_digit (h : n < 16) : value? (digit n).toLower = some n := by
  have hall : ∀ n < 16, value? (digit n).toLower = some n := by decide
  exact hall n h

theorem digit_ne {c : Char} (hc : value? c = none) (h : n < 16) : digit n ≠ c := by
  rintro rfl
  simp [value?_digit h] at hc

theorem readDigits_digit {m : Nat} (h : m < 16) :
    readDigits n (digit m :: rest) = readDigits (n * 16 + m) rest := by
  rw [readDigits, if_neg (digit_ne rfl h), value?_digit h]

theorem readDigits_pushNat (n : Nat) (rest : List Char) :
    readDigits 0 (pushNat n rest) = readDigits n rest := by
  induction n, rest using pushNat.induct with
  | case1 n rest h => rw [pushNat, if_pos h, readDigits_digit h, Nat.zero_mul, Nat.zero_add]
  | case2 n rest h ih =>
    rw [pushNat, if_neg h, ih, readDigits_digit (Nat.mod_lt n (by decide)), Nat.div_add_mod']

theorem exists_pushNat (n : Nat) (rest : List Char) :
    ∃ m < 16, ∃ more, pushNat n rest = digit m :: more := by
  induction n, rest using pushNat.induct with
  | case1 n rest h => exact ⟨n, h, rest, by rw [pushNat, if_pos h]⟩
  | case2 n rest h ih => rwa [pushNat, if_neg h]

@[simp]
theorem toNat?_ofNat (n : Nat) : toNat? (ofNat n) = some n := by
  obtain ⟨m, hm, more, hdigits⟩ := exists_pushNat n []
  have hplus : digit m ≠ '+' := digit_ne rfl hm
  have hunderscore : digit m ≠ '_' := digit_ne rfl hm
  calc toNat? (ofNat n) = readDigits 0 (pushNat n []) := by
        simp [toNat?, ofNat, hdigits, readUnsigned, hplus, hunderscore]
    _ = some n := readDigits_pushNat n []

theorem readPairs_flatMap_pair (bytes : Bytes) : readPairs (bytes.flatMap pair) = some bytes := by
  induction bytes with
  | nil => rfl
  | cons b bytes ih =>
    have hhigh : value? (digit (b.toNat / 16)) = some (b.toNat / 16) :=
      value?_digit (Nat.div_lt_of_lt_mul b.toNat_lt)
    have hlow : value? (digit (b.toNat % 16)) = some (b.toNat % 16) :=
      value?_digit (Nat.mod_lt _ (by decide))
    rw [List.flatMap_cons, pair, List.cons_append, List.cons_append, List.nil_append, readPairs,
      hhigh, hlow, ih]
    simp [Nat.div_add_mod']

@[simp]
theorem toBytes?_ofBytes (bytes : Bytes) : toBytes? (ofBytes bytes) = some bytes := by
  rw [toBytes?, ofBytes, String.toList_ofList, readPairs_flatMap_pair]

end ThresholdElGamal.Hex
