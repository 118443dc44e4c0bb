import ThresholdElGamal.Proofs.Ciphertext.Hashed
import ThresholdElGamal.Proofs.Hash.Fields

/-! # What keys are derived from

The byte string that is hashed into a key states the index of the key, the label, the context and
the length of the payload in bits. The texts stand behind their lengths, so the string determines
all four, also where a text contains the separator. The length in bits is cut to 32 bits and leaves
the length in bytes open, but the number of blocks of the ciphertext bounds what was cut off.
-/

namespace ThresholdElGamal.HashedCiphertext

namespace KeyStream

/-- The lengths of label and context can be stated. -/
structure Statable (k : KeyStream) : Prop where
  label : Field.Statable k.label
  context : Field.Statable k.context

variable {k k' : KeyStream} {i j : UInt32} {message : Bytes}

theorem encode_input (k : KeyStream) (i : UInt32) : Field.encode (k.input i) =
    Bytes.ofUInt32 i ++ (Field.textBytes k.label ++ 0 :: (Field.textBytes k.context ++
      Bytes.ofUInt32 k.bitLength)) := by
  simp [input, Field.encode, Field.bytes]

theorem index_eq_of_encode_input (h : Field.encode (k.input i) = Field.encode (k'.input j)) :
    i = j := by
  rw [encode_input, encode_input] at h
  exact (Bytes.ofUInt32_append_inj h).1

theorem encode_input_inj (hk : k.Statable) (hk' : k'.Statable) :
    Field.encode (k.input i) = Field.encode (k'.input j) ↔
      i = j ∧ k.label = k'.label ∧ k.context = k'.context ∧ k.bitLength = k'.bitLength := by
  rw [encode_input, encode_input]
  constructor
  · intro h
    obtain ⟨hindex, hrest⟩ := Bytes.ofUInt32_append_inj h
    obtain ⟨hlabel, hrest⟩ := Field.textBytes_append_inj hk.label hk'.label hrest
    obtain ⟨hcontext, hrest⟩ :=
      Field.textBytes_append_inj hk.context hk'.context (List.cons_injective hrest)
    exact ⟨hindex, hlabel, hcontext, Bytes.ofUInt32_injective hrest⟩
  · rintro ⟨rfl, hlabel, hcontext, hbits⟩
    rw [hlabel, hcontext, hbits]

/-- The keyed hash is used on the inputs of the indices: under the secret for a key, under key zero
for the tag. The keys from one on are combined with the blocks in turn. -/
structure UsesInputs (k : KeyStream) : Prop where
  blockKey : ∀ i, k.blockKey i = k.mac k.key.bytes (Field.encode (k.input i))
  tag : ∀ c0 c1, k.tag c0 c1 =
    k.mac (k.mac k.key.bytes (Field.encode (k.input 0))).bytes (c0.bytes ++ c1)
  length : ∀ (bytes : Bytes) (blocks : ℕ), bytes.length = blocks * blockSize →
    (k.apply bytes).length = blocks * blockSize
  block : ∀ (bytes : Bytes) (blocks i : ℕ), bytes.length = blocks * blockSize → i < blocks →
    ((k.apply bytes).drop (i * blockSize)).take blockSize =
      List.zipWith (· ^^^ ·) ((bytes.drop (i * blockSize)).take blockSize)
        (k.mac k.key.bytes (Field.encode (k.input (UInt32.ofNat (i + 1))))).bytes

theorem block_applyFrom {bytes : Bytes} {blocks n : ℕ} (h : bytes.length = blocks * blockSize)
    (hn : n < blocks) (index : ℕ) :
    ((k.applyFrom index blocks bytes).drop (n * blockSize)).take blockSize =
      List.zipWith (· ^^^ ·) ((bytes.drop (n * blockSize)).take blockSize)
        (k.blockKey (UInt32.ofNat (index + n + 1))).bytes := by
  induction blocks generalizing bytes n index with
  | zero => exact absurd hn (Nat.not_lt_zero n)
  | succ blocks ih =>
    obtain ⟨block, rest, rfl, hblock, hrest⟩ := exists_block h
    rw [applyFrom_append hblock]
    cases n with
    | zero =>
      rw [Nat.zero_mul, List.drop_zero, List.drop_zero, List.take_left' hblock,
        List.take_left' (length_combined hblock _), Nat.add_zero]
    | succ n =>
      have hskip : ∀ head tail : Bytes, head.length = blockSize →
          (head ++ tail).drop ((n + 1) * blockSize) = tail.drop (n * blockSize) := by
        intro head tail hhead
        rw [Nat.succ_mul, Nat.add_comm, ← hhead, List.drop_length_add_append]
      rw [hskip _ _ hblock, hskip _ _ (length_combined hblock _),
        ih hrest (Nat.lt_of_succ_lt_succ hn), Nat.add_right_comm index 1 n, Nat.add_assoc index n 1]

theorem usesInputs (k : KeyStream) : k.UsesInputs where
  blockKey i := rfl
  tag c0 c1 := rfl
  length bytes blocks h := length_apply h
  block bytes blocks i h hi := by
    rw [apply, h, Nat.mul_div_cancel _ (by decide : 0 < blockSize), block_applyFrom h hi 0,
      Nat.zero_add]
    rfl

/-- The number of blocks of a payload. -/
def blocksOf (message : Bytes) : ℕ := (padded message).length / blockSize

/-- What is hashed into the authentication key, and into the key of each block. -/
def keyInputs (k : KeyStream) (message : Bytes) : List Bytes :=
  (List.range (blocksOf message + 1)).map fun index => Field.encode (k.input (UInt32.ofNat index))

theorem blocksOf_lt (h : message.length < 2 ^ 32) : blocksOf message + 1 < 2 ^ 32 := by
  have hbounds := (blockCount_mul_bounds message.length).2
  rw [blocksOf, length_padded, Nat.mul_div_cancel _ (by decide : 0 < blockSize)]
  rw [show blockSize = 32 from rfl] at hbounds
  omega

theorem nodup_keyInputs (k : KeyStream) (h : message.length < 2 ^ 32) :
    (k.keyInputs message).Nodup :=
  (nodup_numbered_iff fun _ _ => index_eq_of_encode_input).2 (blocksOf_lt h).le

theorem applyFrom_congr {index blocks : ℕ} (bytes : Bytes)
    (h : ∀ i, index < i → i ≤ index + blocks →
      k.blockKey (UInt32.ofNat i) = k'.blockKey (UInt32.ofNat i)) :
    k.applyFrom index blocks bytes = k'.applyFrom index blocks bytes := by
  induction blocks generalizing index bytes with
  | zero => rfl
  | succ blocks ih =>
    rw [applyFrom, applyFrom, h (index + 1) (by omega) (by omega),
      ih _ fun i hi hle => h i (by omega) (by omega)]

/-- The same secret and texts, with another keyed hash. -/
def withMac (k : KeyStream) (mac : Hmac.Mac) : KeyStream := { k with mac }

theorem withMac_congr {mac : Hmac.Mac}
    (h : ∀ input ∈ k.keyInputs message, mac k.key.bytes input = k.mac k.key.bytes input) :
    (k.withMac mac).blockKey 0 = k.blockKey 0 ∧
      (k.withMac mac).apply (padded message) = k.apply (padded message) := by
  have hkeys : ∀ i ≤ blocksOf message,
      (k.withMac mac).blockKey (UInt32.ofNat i) = k.blockKey (UInt32.ofNat i) := fun i hi =>
    h _ (List.mem_map.2 ⟨i, List.mem_range.2 (Nat.lt_succ_of_le hi), rfl⟩)
  exact ⟨hkeys 0 (Nat.zero_le _),
    applyFrom_congr _ fun i _ hle => hkeys i (by rwa [Nat.zero_add] at hle)⟩

end KeyStream

/-- The payload takes up exactly the blocks that its stated length asks for. -/
def FillsBlocks (c1 : Bytes) (numBytes : UInt32) : Prop :=
  c1.length = blockCount numBytes.toNat * blockSize

/-- Exactly such ciphertexts are decrypted whose tag is the one under their own key zero. -/
theorem decryptWith_eq_some_iff {mac : Hmac.Mac} {publicKey beta : Element}
    {extendedBaseHash : Digest} {label context : String} {c : HashedCiphertext} {message : Bytes} :
    decryptWith mac publicKey extendedBaseHash label context c beta = some message ↔
      FillsBlocks c.c1 c.numBytes ∧
        (KeyStream.derive mac extendedBaseHash publicKey c.c0 beta label context
          c.numBytes.toNat).tag c.c0 c.c1 = c.c2 ∧
        ((KeyStream.derive mac extendedBaseHash publicKey c.c0 beta label context
          c.numBytes.toNat).apply c.c1).take c.numBytes.toNat = message := by
  rw [decryptWith, Option.ite_none_right_eq_some, Option.some_inj, and_assoc, FillsBlocks]

theorem FillsBlocks.eq_of_bitLength {c1 : Bytes} {m n : UInt32} (hm : FillsBlocks c1 m)
    (hn : FillsBlocks c1 n) (h : UInt32.ofNat (m.toNat * 8) = UInt32.ofNat (n.toNat * 8)) :
    m = n := by
  have hmbounds := blockCount_mul_bounds m.toNat
  have hnbounds := blockCount_mul_bounds n.toNat
  rw [FillsBlocks] at hm hn
  rw [← hm, show blockSize = 32 from rfl] at hmbounds
  rw [← hn, show blockSize = 32 from rfl] at hnbounds
  rw [word_eq_iff] at h
  apply UInt32.toNat_inj.1
  omega

/-- Keys are never derived from equal strings unless index, label, context and bit length are equal.
So the keys of one payload are derived from different strings, and these are all that is hashed into
keys for it. Only ciphertexts of an accepted length are decrypted, and they bind label, context and
stated length through the string for their authentication key. -/
theorem keys_derived_from_distinct :
    (∀ k : KeyStream, k.UsesInputs) ∧
    (∀ (k k' : KeyStream) (i j : UInt32), k.Statable → k'.Statable →
      (Field.encode (k.input i) = Field.encode (k'.input j) ↔
        i = j ∧ k.label = k'.label ∧ k.context = k'.context ∧ k.bitLength = k'.bitLength)) ∧
    (∀ (k : KeyStream) (message : Bytes), message.length < 2 ^ 32 →
      (k.keyInputs message).Nodup ∧
        ∀ mac : Hmac.Mac,
          (∀ input ∈ k.keyInputs message, mac k.key.bytes input = k.mac k.key.bytes input) →
            (k.withMac mac).blockKey 0 = k.blockKey 0 ∧
              (k.withMac mac).apply (padded message) = k.apply (padded message)) ∧
    (∀ (mac : Hmac.Mac) (publicKey : Element) (extendedBaseHash : Digest)
        (label context : String) (c : HashedCiphertext) (beta : Element) (message : Bytes),
      decryptWith mac publicKey extendedBaseHash label context c beta = some message ↔
        FillsBlocks c.c1 c.numBytes ∧
          (KeyStream.derive mac extendedBaseHash publicKey c.c0 beta label context
            c.numBytes.toNat).tag c.c0 c.c1 = c.c2 ∧
          ((KeyStream.derive mac extendedBaseHash publicKey c.c0 beta label context
            c.numBytes.toNat).apply c.c1).take c.numBytes.toNat = message) ∧
    ∀ (c1 : Bytes) (m n : UInt32), FillsBlocks c1 m → FillsBlocks c1 n →
      ∀ (mac : Hmac.Mac) (extendedBaseHash : Digest) (publicKey c0 beta : Element)
        (label context label' context' : String),
        (∀ s ∈ [label, context, label', context'], Field.Statable s) →
        (Field.encode ((KeyStream.derive mac extendedBaseHash publicKey c0 beta label context
              m.toNat).input 0) =
            Field.encode ((KeyStream.derive mac extendedBaseHash publicKey c0 beta label' context'
              n.toNat).input 0) ↔
          label = label' ∧ context = context' ∧ m = n) := by
  refine ⟨KeyStream.usesInputs, fun k k' i j hk hk' => KeyStream.encode_input_inj hk hk',
    fun k message h => ⟨k.nodup_keyInputs h, fun mac => KeyStream.withMac_congr⟩,
    fun mac publicKey extendedBaseHash label context c beta message => decryptWith_eq_some_iff, ?_⟩
  intro c1 m n hm hn mac extendedBaseHash publicKey c0 beta label context label' context' hstatable
  simp only [List.forall_mem_cons] at hstatable
  obtain ⟨hlabel, hcontext, hlabel', hcontext', -⟩ := hstatable
  rw [KeyStream.encode_input_inj ⟨hlabel, hcontext⟩ ⟨hlabel', hcontext'⟩]
  constructor
  · rintro ⟨-, hlabels, hcontexts, hbits⟩
    exact ⟨hlabels, hcontexts, hm.eq_of_bitLength hn hbits⟩
  · rintro ⟨rfl, rfl, rfl⟩
    exact ⟨rfl, rfl, rfl, rfl⟩

/-- A separator at the end of the label is not one at the start of the context. -/
theorem keys_derived_from_distinct_separator :
    FillsBlocks (List.replicate 32 7) 5 ∧
      Field.Statable "a\x00" ∧ Field.Statable "" ∧ Field.Statable "a" ∧ Field.Statable "\x00" ∧
      Field.encode ((KeyStream.derive Hmac.mac ⟨List.replicate 32 0, rfl⟩ .generator .one .one
          "a\x00" "" 5).input 0) ≠
        Field.encode ((KeyStream.derive Hmac.mac ⟨List.replicate 32 0, rfl⟩ .generator .one .one
          "a" "\x00" 5).input 0) := by
  have hfills : FillsBlocks (List.replicate 32 7) 5 := by rfl
  have hstatable : ∀ s ∈ ["a\x00", "", "a", "\x00"], Field.Statable s := by
    simp only [List.forall_mem_cons, Field.Statable]
    decide
  obtain ⟨h₁, h₂, h₃, h₄, -⟩ := by simpa only [List.forall_mem_cons] using hstatable
  refine ⟨hfills, h₁, h₂, h₃, h₄, ?_⟩
  intro h
  have hsame := (keys_derived_from_distinct.2.2.2.2 _ 5 5 hfills hfills Hmac.mac
    ⟨List.replicate 32 0, rfl⟩ .generator .one .one "a\x00" "" "a" "\x00" hstatable).1 h
  exact absurd hsame.1 (by decide)

end ThresholdElGamal.HashedCiphertext
