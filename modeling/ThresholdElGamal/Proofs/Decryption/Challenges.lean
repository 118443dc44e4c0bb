import Mathlib.Tactic.NormNum
import ThresholdElGamal.Decryption.Cipher
import ThresholdElGamal.Proofs.Hash.Fields

/-! # What a challenge binds

The byte string that is hashed into the challenge of a decryption has one part of open length: the
payload of the ciphertext. What stands before it and behind it has a fixed width for reduced
elements, so the string determines every field, and its first byte keeps it apart from what the key
derivation hashes under the same key.
-/

namespace ThresholdElGamal

namespace Cipher

/-- The payload behind the pad: the part of open length. -/
def payloadBytes : Cipher → Bytes
  | elgamal c => c.data.bytes
  | hashed c => c.c1 ++ c.c2.bytes

/-- The ciphertexts are of one kind with the same pad and the same payload. The length that a hashed
ciphertext states for its payload is not compared. -/
def SameContent : Cipher → Cipher → Prop
  | elgamal c, elgamal c' => c.pad = c'.pad ∧ c.data = c'.data
  | hashed c, hashed c' => c.c0 = c'.c0 ∧ c.c1 = c'.c1 ∧ c.c2 = c'.c2
  | _, _ => False

variable {t t' : Cipher}

theorem encode_challengeInput (t : Cipher) (k a b m : Element) :
    Field.encode (t.challengeInput k a b m) = t.domainTag ::
      (k.bytes ++ (t.pad.bytes ++ (t.payloadBytes ++ a.bytes ++ b.bytes ++ m.bytes))) := by
  cases t <;>
    simp [challengeInput, contentFields, payloadBytes, domainTag, pad, Field.encode, Field.bytes]

theorem sameContent_iff : t.SameContent t' ↔
    t.domainTag = t'.domainTag ∧ t.pad = t'.pad ∧ t.payloadBytes = t'.payloadBytes := by
  cases t with
  | elgamal c =>
    cases t' with
    | elgamal c' =>
      simp [SameContent, domainTag, pad, payloadBytes, Element.bytes_injective.eq_iff]
    | hashed c' => simp [SameContent, domainTag]
  | hashed c =>
    cases t' with
    | elgamal c' => simp [SameContent, domainTag]
    | hashed c' =>
      have hpayload : c.c1 ++ c.c2.bytes = c'.c1 ++ c'.c2.bytes ↔ c.c1 = c'.c1 ∧ c.c2 = c'.c2 := by
        constructor
        · intro h
          obtain ⟨hc1, hc2⟩ :=
            List.append_inj' h (c.c2.length_bytes.trans c'.c2.length_bytes.symm)
          exact ⟨hc1, Digest.ext hc2⟩
        · rintro ⟨hc1, hc2⟩
          rw [hc1, hc2]
      simp [SameContent, domainTag, pad, payloadBytes, hpayload]

/-- A challenge is the keyed hash of its input, as the secret of a key stream is that of another.
For reduced elements the input of a challenge determines the kind, the pad and the payload of the
ciphertext, the public key, the commitments and the mask, and it is never that of a secret. -/
theorem challengeInput_binds :
    (∀ (t : Cipher) (extendedBaseHash : Digest) (k a b m : Element),
      t.collectiveChallenge extendedBaseHash k a b m =
        (Hmac.mac extendedBaseHash.bytes
          (Field.encode (t.challengeInput k a b m))).toExponent) ∧
    (∀ (mac : Hmac.Mac) (extendedBaseHash : Digest) (publicKey c0 beta : Element)
        (label context : String) (numBytes : ℕ),
      (HashedCiphertext.KeyStream.derive mac extendedBaseHash publicKey c0 beta label context
          numBytes).key =
        mac extendedBaseHash.bytes
          (Field.encode (HashedCiphertext.secretInput publicKey c0 beta))) ∧
    (∀ (t t' : Cipher) (k a b m k' a' b' m' : Element),
      (∀ x ∈ [t.pad, k, a, b, m, t'.pad, k', a', b', m'], x.val < modulus) →
        (Field.encode (t.challengeInput k a b m) = Field.encode (t'.challengeInput k' a' b' m') ↔
          t.SameContent t' ∧ k = k' ∧ a = a' ∧ b = b' ∧ m = m')) ∧
      ∀ (t : Cipher) (k a b m publicKey c0 beta : Element),
        Field.encode (t.challengeInput k a b m) ≠
          Field.encode (HashedCiphertext.secretInput publicKey c0 beta) := by
  refine ⟨fun t extendedBaseHash k a b m => rfl,
    fun mac extendedBaseHash publicKey c0 beta label context numBytes => rfl, ?_, ?_⟩
  · intro t t' k a b m k' a' b' m' hreduced
    simp only [List.forall_mem_cons] at hreduced
    obtain ⟨hpad, hk, ha, hb, hm, hpad', hk', ha', hb', hm', -⟩ := hreduced
    rw [encode_challengeInput, encode_challengeInput, sameContent_iff]
    constructor
    · intro h
      obtain ⟨htag, hrest⟩ := List.cons_eq_cons.1 h
      obtain ⟨hkey, hrest⟩ := Element.bytes_append_inj hk hk' hrest
      obtain ⟨hpads, hrest⟩ := Element.bytes_append_inj hpad hpad' hrest
      obtain ⟨hrest, hmask⟩ := Element.append_bytes_inj hm hm' hrest
      obtain ⟨hrest, hsecond⟩ := Element.append_bytes_inj hb hb' hrest
      obtain ⟨hpayload, hfirst⟩ := Element.append_bytes_inj ha ha' hrest
      exact ⟨⟨htag, hpads, hpayload⟩, hkey, hfirst, hsecond, hmask⟩
    · rintro ⟨⟨htag, hpads, hpayload⟩, rfl, rfl, rfl, rfl⟩
      rw [htag, hpads, hpayload]
  · intro t k a b m publicKey c0 beta h
    rw [encode_challengeInput] at h
    have htag : t.domainTag = 0x22 := (List.cons_eq_cons.1 h).1
    cases t with
    | elgamal c => exact absurd (show (0x30 : UInt8) = 0x22 from htag) (by decide)
    | hashed c => exact absurd (show (0x31 : UInt8) = 0x22 from htag) (by decide)

/-- Payloads that agree modulo `p` are told apart. -/
theorem challengeInput_binds_congruent_payloads :
    (∀ x ∈ [Element.generator, .one, .one, .one, .one, .generator, .one, .one, .one, .one],
      x.val < modulus) ∧
    Field.encode ((elgamal ⟨.generator, ⟨modulus⟩⟩).challengeInput .one .one .one .one) ≠
      Field.encode ((elgamal ⟨.generator, ⟨0⟩⟩).challengeInput .one .one .one .one) := by
  have hreduced : ∀ x ∈ [Element.generator, .one, .one, .one, .one, .generator, .one, .one, .one,
      .one], x.val < modulus := by decide
  refine ⟨hreduced, fun h => ?_⟩
  obtain ⟨⟨-, hdata⟩, -⟩ := (challengeInput_binds.2.2.1 (elgamal ⟨.generator, ⟨modulus⟩⟩)
    (elgamal ⟨.generator, ⟨0⟩⟩) .one .one .one .one .one .one .one .one hreduced).1 h
  exact absurd hdata (by decide)

end Cipher

end ThresholdElGamal
