import ThresholdElGamal.Proofs.Hash.Fields
import ThresholdElGamal.Proofs.Trustee.Answers

/-! # What nonces are derived from

The nonce for a position is hashed, under the seed, from the name of the key holder and the position
as a word. Positions are cut to 32 bits, so two of them share what is hashed exactly when they agree
modulo `2 ^ 32`. Within a batch this happens exactly when it has more pads than there are words.
-/

namespace ThresholdElGamal

namespace Nonces

variable {n : Nonces} {i j size : ℕ}

/-- The byte string that is hashed into the nonce for a position. -/
def inputAt (n : Nonces) (position : ℕ) : Bytes :=
  Field.encode (n.input (UInt32.ofNat position))

/-- The nonce that a byte string is hashed into. -/
def ofInput (n : Nonces) (input : Bytes) : Exponent := (Hmac.mac n.seed.bytes input).toExponent

theorem atPosition_eq (n : Nonces) (i : ℕ) : n.atPosition i = n.ofInput (n.inputAt i) := rfl

theorem encode_input_injective (n : Nonces) :
    Function.Injective fun position => Field.encode (n.input position) := by
  intro v w h
  simp only [input, Field.encode, Field.bytes, List.flatMap_cons, List.flatMap_nil,
    List.append_nil] at h
  exact Bytes.ofUInt32_injective (List.append_cancel_left h)

theorem inputAt_eq_iff : n.inputAt i = n.inputAt j ↔ i % 2 ^ 32 = j % 2 ^ 32 :=
  n.encode_input_injective.eq_iff.trans word_eq_iff

/-- The inputs for the first positions are all different exactly when each position fits a word. -/
theorem nodup_inputs_iff : ((List.range size).map n.inputAt).Nodup ↔ size ≤ 2 ^ 32 :=
  nodup_numbered_iff n.encode_input_injective

@[simp]
theorem length_take (n : Nonces) (count : ℕ) : (n.take count).length = count % 2 ^ 32 := by
  simp [take]

end Nonces

namespace KeyHolder

variable {t u : KeyHolder} {now : ℕ} {candidates : List BatchId} {seed : Exponent}
  {pads : List Element} {answer : PartialDecryptions}

/-- In both rounds the nonce for a position is hashed from the input at that position. Two positions
have different inputs unless they agree modulo `2 ^ 32`, so the inputs of a batch are all different
exactly when it has at most `2 ^ 32` pads. A batch without pads is never opened, so there is no
round two for it. -/
theorem nonce_inputs_distinct_iff (h : t.decrypt now candidates seed pads = some (answer, u)) :
    (∀ (i : ℕ) (pad : Element), pads[i]? = some pad → answer.partials[i]? = some
      (PartialDecryption.ofShare t.keyShare
        ((t.nonces seed).ofInput ((t.nonces seed).inputAt i)) pad)) ∧
    (pads ≠ [] →
      ∀ (later : ℕ) (challenges : List Exponent) (response : ChallengeResponses),
        (u.challenge later answer.batchId challenges).1 = .ok response →
          ∀ (i : ℕ) (c : Exponent), challenges[i]? = some c → response.responses[i]? =
            some (t.keyShare.respond ((t.nonces seed).ofInput ((t.nonces seed).inputAt i)) c)) ∧
    (∀ i j : ℕ, (t.nonces seed).inputAt i = (t.nonces seed).inputAt j ↔
      i % 2 ^ 32 = j % 2 ^ 32) ∧
    (((List.range pads.length).map (t.nonces seed).inputAt).Nodup ↔ pads.length ≤ 2 ^ 32) := by
  simp only [← Nonces.atPosition_eq]
  refine ⟨?_, ?_, fun _ _ => Nonces.inputAt_eq_iff, Nonces.nodup_inputs_iff⟩
  · intro i pad hpad
    have hpads : pads ≠ [] := List.ne_nil_of_mem (List.mem_of_getElem? hpad)
    rw [(decrypt_eq_some hpads h).1]
    exact getElem?_partials hpad
  · intro hpads later challenges response hresponse i c hc
    obtain ⟨-, -, rfl⟩ := (challenge_opened_eq_ok hpads h).1 hresponse
    exact getElem?_responses hc

/-- Two pads, whose nonces are hashed from different inputs. -/
theorem nonce_inputs_distinct_iff_two_pads :
    ∃ (answer : PartialDecryptions) (u : KeyHolder),
      (KeyHolder.new ⟨"guardian-1", 1, genPow .one⟩ .one 60).decrypt 0 [⟨1⟩] .one
          [.generator, .generator] = some (answer, u) ∧
        Nonces.inputAt ⟨.one, "guardian-1"⟩ 0 ≠ Nonces.inputAt ⟨.one, "guardian-1"⟩ 1 := by
  have hsome : ((KeyHolder.new ⟨"guardian-1", 1, genPow .one⟩ .one 60).decrypt 0 [⟨1⟩] .one
      [.generator, .generator]).isSome = true := by
    rw [decrypt_isSome .one (List.cons_ne_nil _ _)]
    rfl
  obtain ⟨⟨answer, u⟩, hdecrypt⟩ := Option.isSome_iff_exists.1 hsome
  obtain ⟨-, -, hinputs, -⟩ := nonce_inputs_distinct_iff hdecrypt
  exact ⟨answer, u, hdecrypt, fun hsame => absurd ((hinputs 0 1).1 hsame) (by decide)⟩

/-- In a batch of one pad more than there are words the first and the last position share their
input. -/
theorem not_nonce_inputs_distinct :
    (0 < (List.replicate (2 ^ 32 + 1) Element.generator).length ∧
      2 ^ 32 < (List.replicate (2 ^ 32 + 1) Element.generator).length) ∧
    Nonces.inputAt ⟨⟨5⟩, "guardian-1"⟩ 0 = Nonces.inputAt ⟨⟨5⟩, "guardian-1"⟩ (2 ^ 32) ∧
    (Nonces.take ⟨⟨5⟩, "guardian-1"⟩ (2 ^ 32 + 1)).length = 1 := by
  rw [List.length_replicate, Nonces.length_take]
  exact ⟨⟨Nat.succ_pos _, Nat.lt_succ_self _⟩, Nonces.inputAt_eq_iff.2 rfl, rfl⟩

end KeyHolder

end ThresholdElGamal
