import ThresholdElGamal.Proofs.Decryption.Flags
import ThresholdElGamal.Proofs.Wire.Ciphertexts
import ThresholdElGamal.Wire.Session
import ThresholdElGamal.Wire.Trustee

/-! # Session records and trustee messages lose nothing

The positions of flags are written in ascending order, so that reading puts each entry behind those
it has read already.
-/

namespace ThresholdElGamal.Wire

open Json (Value Key printNat)

/-! ### Flags -/

theorem not_needsEscape_of_isDigit {c : Char} (h : c.isDigit = true) :
    Json.needsEscape c = false := by
  have hrange : 48 ≤ c.toNat := (Char.isDigit_iff_toNat.1 h).1
  have hquote : c ≠ '"' := by rintro rfl; simp at h
  have hbackslash : c ≠ '\\' := by rintro rfl; simp at h
  simp only [Json.needsEscape, Bool.or_eq_false_iff, decide_eq_false_iff_not, beq_eq_false_iff_ne]
  exact ⟨⟨by omega, hquote⟩, hbackslash⟩

theorem decodePosition_printNat (i : UInt64) :
    decodePosition (.ofText (String.ofList (printNat i.toNat))) = some i := by
  have hplain : (printNat i.toNat).any Json.needsEscape = false := by
    rw [List.any_eq_false]
    intro c hc
    simp [not_needsEscape_of_isDigit (Json.isDigit_printNat _ c hc)]
  have hdigits := Json.integerPart?_printNat (n := i.toNat) Json.stops_nil.not_digit
  rw [List.append_nil] at hdigits
  simp [decodePosition, Key.ofText, hplain, hdigits, Json.ofDigits_printNat, i.toNat_lt]

theorem decodeFlag_encode (done : Flags) (entry : UInt64 × List String) :
    decodeFlag done (.ofText (String.ofList (printNat entry.1.toNat)), encode entry.2) =
      some (done.set entry.1 entry.2) := by
  simp [decodeFlag, decodePosition_printNat]

/-- Entries in ascending order are put behind those before them. -/
theorem foldlM_decodeFlag {entries : List (UInt64 × List String)} {done flags : Flags}
    (h : flags.entries = done.entries ++ entries) :
    (entries.map fun e => (Key.ofText (String.ofList (printNat e.1.toNat)), encode e.2)).foldlM
      decodeFlag done = some flags := by
  induction entries generalizing done with
  | nil =>
    rw [List.append_nil] at h
    rw [Flags.ext h]
    rfl
  | cons e entries ih =>
    have hbefore : ∀ kv ∈ done.entries, kv.1 < e.1 := by
      have hascending := flags.ascending
      rw [h, List.map_append, List.pairwise_append] at hascending
      exact fun kv hkv => hascending.2.2 _ (List.mem_map_of_mem hkv) _ (.head _)
    have hset : (done.set e.1 e.2).entries = done.entries ++ [e] := by
      have halter : Flags.alter e.1 (fun _ => e.2) (done.entries ++ []) =
          done.entries ++ Flags.alter e.1 (fun _ => e.2) [] := Flags.alter_append hbefore
      rwa [List.append_nil] at halter
    rw [List.map_cons, List.foldlM_cons, decodeFlag_encode]
    exact ih (by rw [h, hset, List.append_assoc, List.singleton_append])

instance : Lossless Flags where
  canonical_encode flags := Value.canonical_record.2
    (List.forall_mem_map.2 fun e _ => Lossless.canonical_encode e.2)
  decode_encode flags := by
    change (List.map _ (List.map _ flags.entries)).foldlM decodeFlag .empty = some flags
    rw [List.map_map]
    exact foldlM_decodeFlag rfl

/-! ### Records of a session -/

instance : Lossless (Option Decryption) := Lossless.option nofun

instance : Lossless Decryptions where
  canonical_encode d := Value.canonical_record.2 (by simp)
  decode_encode d := Value.read_record rfl (by decide) (by simp)

instance : Lossless Metrics where
  canonical_encode m := Value.canonical_record.2 (by simp)
  decode_encode m := Value.read_record rfl (by decide) (by simp)

instance : Lossless DecryptionConfig where
  canonical_encode c := Value.canonical_record.2 (by simp)
  decode_encode c := Value.read_record rfl (by decide) (by simp)

/-! ### Messages of trustees -/

instance : Lossless BatchId where
  canonical_encode b := Lossless.canonical_encode b.val
  decode_encode b := by
    change (decode (encode b.val)).map BatchId.mk = some b
    rw [Lossless.decode_encode, Option.map_some]

instance : Lossless PartialDecryption where
  canonical_encode p := Value.canonical_record.2 (by simp)
  decode_encode p := Value.read_record rfl (by decide) (by simp)

instance : Lossless PartialDecryptions where
  canonical_encode p := Value.canonical_record.2 (by simp)
  decode_encode p := Value.read_record rfl (by decide) (by simp)

instance : Lossless ChallengeResponses where
  canonical_encode r := Value.canonical_record.2 (by simp)
  decode_encode r := Value.read_record rfl (by decide) (by simp)

instance : Lossless TrusteeError where
  canonical_encode
    | .unknownBatch b => Value.canonical_record.2 (by simp)
    | .lengthMismatch b expected actual => Value.canonical_record.2 (by simp)
    | .unavailable reason => Value.canonical_record.2 (by simp)
  decode_encode
    | .unknownBatch b => by
      change (decode (encode b)).map TrusteeError.unknownBatch = _
      rw [Lossless.decode_encode, Option.map_some]
    | .lengthMismatch b expected actual => by
      change decodeLengthMismatch (.record [("batch_id", encode b), ("expected", encode expected),
        ("actual", encode actual)]) = _
      exact Value.read_record rfl (by decide) (by simp)
    | .unavailable reason => rfl

end ThresholdElGamal.Wire
