import Mathlib.Algebra.Group.Nat.Defs
import ThresholdElGamal.Proofs.Wire.Lossless
import ThresholdElGamal.Wire.Ciphertext

/-! # Ciphertexts and proofs lose nothing

The members of a ciphertext are held until its kind is known. They are texts and one number that is
a double as it stands, so that they can be held at any depth.
-/

namespace ThresholdElGamal.Json

variable {n depth : Nat} {members : List (String × Value)}

theorem roundToDouble_of_lt (h : n < 2 ^ 53) : roundToDouble n = n := by
  have hunit : 1 <<< (n.log2 - 52) = 1 := by
    have hlog : n.log2 < 53 := by
      rcases Nat.eq_zero_or_pos n with rfl | hn
      · decide
      · exact (Nat.log2_lt (Nat.ne_of_gt hn)).2 h
    rw [Nat.sub_eq_zero_of_le (by omega), Nat.shiftLeft_zero]
  simp [roundToDouble, hunit, Nat.mod_one]

theorem isFinite_of_lt (h : n < 2 ^ 53) : isFinite n 0 = true := by
  have hcut : cutDigits n 0 = (n, 0) := by
    rw [cutDigits, dif_pos (Nat.lt_trans h (by decide))]
  have hone : roundToDouble (Nat.pow 10 0) = 1 := rfl
  have hbound : n < overflowBound := Nat.lt_trans h (by decide)
  rw [isFinite, hcut]
  cases n with
  | zero => rfl
  | succ n =>
    change (decide (0 ≤ largestExponent) &&
      decide (roundToDouble (n + 1) * roundToDouble (Nat.pow 10 0) < overflowBound)) = true
    rw [roundToDouble_of_lt h, hone, Nat.mul_one, decide_eq_true hbound]
    rfl

namespace Value

@[simp]
theorem isStorable_text (s : String) : (text s).isStorable depth = true := rfl

theorem isStorable_nat (h : n < 2 ^ 53) : (nat n).isStorable depth = true := by
  rw [nat, isStorable, Int.natAbs_natCast, isFinite_of_lt h]

theorem isStorable_record :
    (record members).isStorable (depth + 1) = true ↔
      ∀ m ∈ members, m.2.isStorable depth = true := by
  rw [record, isStorable]
  induction members with
  | nil => simp [membersStorable]
  | cons m members ih =>
    rw [List.map_cons, membersStorable, Bool.and_eq_true, ih, List.forall_mem_cons]
    simp [Key.ofText]

end Value

end ThresholdElGamal.Json

namespace ThresholdElGamal.Wire

open Json (Value)

instance : Lossless Element where
  canonical_encode _ := trivial
  decode_encode a := by
    change (decodeNat (encodeNat a.val)).map Element.mk = some a
    rw [decodeNat_encodeNat, Option.map_some]

instance : Lossless Exponent where
  canonical_encode _ := trivial
  decode_encode w := by
    change (decodeNat (encodeNat w.val)).map Exponent.mk = some w
    rw [decodeNat_encodeNat, Option.map_some]

instance : Lossless Digest where
  canonical_encode _ := trivial
  decode_encode d := by
    change (decodeBytes (encodeBytes d.bytes)).bind Digest.ofBytes? = some d
    rw [decodeBytes_encodeBytes, Option.bind_some, Digest.ofBytes?_bytes]

instance : Lossless Ciphertext where
  canonical_encode c := Value.canonical_record.2 (by simp [ciphertextMembers])
  decode_encode c := Value.read_record rfl (by decide) (by simp [ciphertextMembers])

instance : Lossless HashedCiphertext where
  canonical_encode c := Value.canonical_record.2 (by simp [hashedMembers])
  decode_encode c := Value.read_record rfl (by decide) (by simp [hashedMembers])

/-! ### Ciphertexts of either kind -/

variable {kind : String} {fields : List (String × Value)} {depth : Nat}

theorem decodeCipherWithin_record (hfields : ∀ m ∈ fields, m.2.isStorable depth = true)
    (hkind : "kind" ∉ fields.map (·.1)) :
    decodeCipherWithin (depth + 1) (.record (("kind", .text kind) :: fields)) =
      decodeKind (.text kind) (.record (("kind", .text kind) :: fields)) := by
  have hstorable : Value.isStorable (depth + 1) (.record (("kind", .text kind) :: fields)) = true :=
    Value.isStorable_record.2 (by simpa using hfields)
  have hmember : Value.membersAt "kind" ((("kind", .text kind) :: fields).map fun m =>
      (Json.Key.ofText m.1, m.2)) = [.text kind] := by
    rw [List.map_cons, Value.membersAt_cons, if_pos rfl,
      Value.membersAt_record_of_not_mem hkind]
  rw [Value.record] at hstorable ⊢
  rw [decodeCipherWithin, if_pos hstorable]
  simp only [hmember]

theorem decodeKind_elgamal {body : Value} {c : Ciphertext} (h : decode body = some c) :
    decodeKind (.text "elgamal") body = some (.elgamal c) := by
  change (decode body).map Cipher.elgamal = _
  rw [h, Option.map_some]

theorem decodeKind_hashed {body : Value} {c : HashedCiphertext} (h : decode body = some c) :
    decodeKind (.text "hashed") body = some (.hashed c) := by
  change (decode body).map Cipher.hashed = _
  rw [h, Option.map_some]

theorem isStorable_ciphertextMembers (c : Ciphertext) :
    ∀ m ∈ ciphertextMembers c, m.2.isStorable depth = true := by
  intro m hm
  simp only [ciphertextMembers, List.mem_cons, List.not_mem_nil, or_false] at hm
  rcases hm with rfl | rfl <;> rfl

theorem isStorable_hashedMembers (c : HashedCiphertext) :
    ∀ m ∈ hashedMembers c, m.2.isStorable depth = true := by
  intro m hm
  simp only [hashedMembers, List.mem_cons, List.not_mem_nil, or_false] at hm
  rcases hm with rfl | rfl | rfl | rfl
  · rfl
  · rfl
  · rfl
  · exact Value.isStorable_nat (Nat.lt_trans c.numBytes.toNat_lt (by decide))

/-- A ciphertext of either kind is read at every depth that leaves room for its braces. -/
theorem decodeCipherWithin_encode (cipher : Cipher) :
    decodeCipherWithin (depth + 1) (encode cipher) = some cipher := by
  cases cipher with
  | elgamal c =>
    refine (decodeCipherWithin_record (isStorable_ciphertextMembers c)
      (by simp [ciphertextMembers])).trans (decodeKind_elgamal ?_)
    exact Value.read_record_among (ciphertextMembers c) rfl (by simp [ciphertextMembers])
      (fun _ hm => .tail _ hm) (by simp [ciphertextMembers])
  | hashed c =>
    refine (decodeCipherWithin_record (isStorable_hashedMembers c)
      (by simp [hashedMembers])).trans (decodeKind_hashed ?_)
    exact Value.read_record_among (hashedMembers c) rfl (by simp [hashedMembers])
      (fun _ hm => .tail _ hm) (by simp [hashedMembers])

instance : Lossless Cipher where
  canonical_encode
    | .elgamal c => Value.canonical_record.2 (by simp [ciphertextMembers])
    | .hashed c => Value.canonical_record.2 (by simp [hashedMembers])
  decode_encode := decodeCipherWithin_encode

theorem decodeBatch_encode (ciphers : List Cipher) : decodeBatch (encode ciphers) = some ciphers :=
  mapM_map_of_read decodeCipherWithin_encode ciphers

instance : Lossless ChaumPedersenProof where
  canonical_encode p := Value.canonical_record.2 (by simp)
  decode_encode p := Value.read_record rfl (by decide) (by simp)

instance : Lossless SchnorrProof where
  canonical_encode p := Value.canonical_record.2 (by simp)
  decode_encode p := Value.read_record rfl (by decide) (by simp)

instance : Lossless Decryption where
  canonical_encode d := Value.canonical_record.2 (by simp)
  decode_encode d := Value.read_record rfl (by decide) (by simp)

end ThresholdElGamal.Wire
