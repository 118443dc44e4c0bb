import ThresholdElGamal.Ciphertext.Hashed
import ThresholdElGamal.Proofs.Group.Powers

/-! # Payloads come back

A payload is padded to whole blocks, and whole blocks combined with the same keys twice are as they
were. Sender and key holder find the same shared value, state the same length and so derive the same
keys, whatever the keyed hash is. Hence every payload whose length fits the field for it comes back.
-/

namespace ThresholdElGamal

theorem genPow_pow_comm (v w : Exponent) : genPow v ^ w = genPow w ^ v := by
  rw [genPow_pow, genPow_pow, Exponent.mul_def, Exponent.mul_def, mul_comm]

namespace HashedCiphertext

theorem blockCount_mul_bounds (n : ℕ) :
    n ≤ blockCount n * blockSize ∧ blockCount n * blockSize ≤ n + blockSize := by
  rw [blockCount, show blockSize = 32 from rfl]
  omega

theorem length_padded (message : Bytes) :
    (padded message).length = blockCount message.length * blockSize := by
  rw [padded, List.length_append, List.length_replicate]
  exact Nat.add_sub_cancel' (blockCount_mul_bounds _).1

theorem take_padded (message : Bytes) : (padded message).take message.length = message :=
  List.take_left

namespace KeyStream

variable {k : KeyStream} {bytes : Bytes} {blocks : ℕ}

theorem zipWith_xor_xor {key : Bytes} (h : bytes.length ≤ key.length) :
    List.zipWith (· ^^^ ·) (List.zipWith (· ^^^ ·) bytes key) key = bytes := by
  induction bytes generalizing key with
  | nil => rfl
  | cons b bytes ih =>
    cases key with
    | nil => simp at h
    | cons c key =>
      rw [List.zipWith_cons_cons, List.zipWith_cons_cons, ih (Nat.le_of_succ_le_succ h),
        UInt8.xor_assoc, UInt8.xor_self, UInt8.xor_zero]

theorem applyFrom_append {block rest : Bytes} (h : block.length = blockSize) (index : ℕ) :
    k.applyFrom index (blocks + 1) (block ++ rest) =
      List.zipWith (· ^^^ ·) block (k.blockKey (UInt32.ofNat (index + 1))).bytes ++
        k.applyFrom (index + 1) blocks rest := by
  rw [applyFrom, List.take_left' h, List.drop_left' h]

theorem exists_block (h : bytes.length = (blocks + 1) * blockSize) :
    ∃ block rest, bytes = block ++ rest ∧ block.length = blockSize ∧
      rest.length = blocks * blockSize := by
  rw [Nat.succ_mul] at h
  refine ⟨bytes.take blockSize, bytes.drop blockSize, (List.take_append_drop _ _).symm, ?_, ?_⟩
  · rw [List.length_take, h]
    omega
  · rw [List.length_drop, h, Nat.add_sub_cancel]

theorem length_combined {block : Bytes} (h : block.length = blockSize) (key : Digest) :
    (List.zipWith (· ^^^ ·) block key.bytes).length = blockSize := by
  rw [List.length_zipWith, h, key.length_bytes]
  rfl

theorem length_applyFrom (h : bytes.length = blocks * blockSize) (index : ℕ) :
    (k.applyFrom index blocks bytes).length = blocks * blockSize := by
  induction blocks generalizing bytes index with
  | zero => rw [applyFrom, List.length_nil, Nat.zero_mul]
  | succ blocks ih =>
    obtain ⟨block, rest, rfl, hblock, hrest⟩ := exists_block h
    rw [applyFrom_append hblock, List.length_append, length_combined hblock, ih hrest, Nat.succ_mul,
      Nat.add_comm]

theorem applyFrom_applyFrom (h : bytes.length = blocks * blockSize) (index : ℕ) :
    k.applyFrom index blocks (k.applyFrom index blocks bytes) = bytes := by
  induction blocks generalizing bytes index with
  | zero => exact (List.length_eq_zero_iff.1 (h.trans (Nat.zero_mul _))).symm
  | succ blocks ih =>
    obtain ⟨block, rest, rfl, hblock, hrest⟩ := exists_block h
    have hkey : block.length ≤ (k.blockKey (UInt32.ofNat (index + 1))).bytes.length :=
      (hblock.trans (Digest.length_bytes _).symm).le
    rw [applyFrom_append hblock, applyFrom_append (length_combined hblock _), zipWith_xor_xor hkey,
      ih hrest]

theorem length_apply (h : bytes.length = blocks * blockSize) :
    (k.apply bytes).length = blocks * blockSize := by
  rw [apply, h, Nat.mul_div_cancel _ (by decide : 0 < blockSize), length_applyFrom h]

theorem apply_apply (h : bytes.length = blocks * blockSize) : k.apply (k.apply bytes) = bytes := by
  have hcount : blocks * blockSize / blockSize = blocks := Nat.mul_div_cancel _ (by decide)
  rw [apply, length_apply h, apply, h, hcount, applyFrom_applyFrom h]

end KeyStream

/-- Whoever has the value that the sender had gets the payload back. -/
theorem decryptWith_pow_nonce {message : Bytes} (hlength : message.length < 2 ^ 32)
    (mac : Hmac.Mac) (publicKey : Element) (nonce : Exponent) (extendedBaseHash : Digest)
    (label context : String) :
    decryptWith mac publicKey extendedBaseHash label context
        (encryptWith mac publicKey extendedBaseHash label context message nonce)
        (publicKey ^ nonce) =
      some message := by
  have hstated : (UInt32.ofNat message.length).toNat = message.length := by
    rw [UInt32.toNat_ofNat', Nat.mod_eq_of_lt hlength]
  have hpadded := length_padded message
  simp only [encryptWith, decryptWith, hstated, KeyStream.length_apply hpadded,
    KeyStream.apply_apply hpadded, take_padded, and_self, if_true]

/-- Every payload below `2 ^ 32` bytes comes back from the ciphertext under the joint key, given the
pad to the power of the secret, whatever the keyed hash is. -/
theorem decryptWith_encryptWith {message : Bytes} (hlength : message.length < 2 ^ 32)
    (mac : Hmac.Mac) (secret nonce : Exponent) (extendedBaseHash : Digest)
    (label context : String) :
    decryptWith mac (genPow secret) extendedBaseHash label context
        (encryptWith mac (genPow secret) extendedBaseHash label context message nonce)
        ((encryptWith mac (genPow secret) extendedBaseHash label context message nonce).c0 ^
          secret) =
      some message := by
  have hshared : (encryptWith mac (genPow secret) extendedBaseHash label context message nonce).c0 ^
      secret = genPow secret ^ nonce := genPow_pow_comm nonce secret
  rw [hshared, decryptWith_pow_nonce hlength]

/-- A payload that fills two blocks to the last byte. -/
theorem decryptWith_encryptWith_two_blocks :
    (List.replicate 64 7 : Bytes).length < 2 ^ 32 ∧
      decrypt (genPow ⟨5⟩) ⟨List.replicate 32 0, rfl⟩ "contest_data" "contest-0"
          (encrypt (genPow ⟨5⟩) ⟨List.replicate 32 0, rfl⟩ "contest_data" "contest-0"
            (List.replicate 64 7) ⟨9⟩)
          (genPow ⟨9⟩ ^ (⟨5⟩ : Exponent)) =
        some (List.replicate 64 7) :=
  have hlength : (List.replicate 64 7 : Bytes).length < 2 ^ 32 := by decide
  ⟨hlength, decryptWith_encryptWith hlength Hmac.mac ⟨5⟩ ⟨9⟩ _ _ _⟩

end HashedCiphertext

end ThresholdElGamal
