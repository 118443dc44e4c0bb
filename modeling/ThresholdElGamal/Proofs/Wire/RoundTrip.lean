import ThresholdElGamal.Proofs.Wire.Sessions
import ThresholdElGamal.Wire.Ballot
import ThresholdElGamal.Wire.Election

/-! # What leaves a process comes back

Every form in which a value leaves a process is lossless: numbers of any size, byte strings, and the
records of elections, sessions, ballots and tallies, with texts of any characters.
-/

namespace ThresholdElGamal.Wire

open Json (Value)

/-! ### Records of an election -/

instance : Lossless Guardian where
  canonical_encode g := Value.canonical_record.2 (by simp)
  decode_encode g := Value.read_record rfl (by decide) (by simp)

instance : Lossless ElectionContext where
  canonical_encode c := Value.canonical_record.2 (by simp)
  decode_encode c := Value.read_record rfl (by decide) (by simp)

instance : Lossless LagrangeCoordinate where
  canonical_encode w := Value.canonical_record.2 (by simp)
  decode_encode w := Value.read_record rfl (by decide) (by simp)

/-! ### Ballots and tallies -/

instance : Lossless EncryptedSelection where
  canonical_encode s := Value.canonical_record.2 (by simp)
  decode_encode s := Value.read_record rfl (by decide) (by simp)

instance : Lossless (Option HashedCiphertext) := Lossless.option nofun

instance : Lossless EncryptedContest where
  canonical_encode c := Value.canonical_record.2 (by simp)
  decode_encode c := Value.read_record rfl (by decide) (by simp)

instance : Lossless EncryptedBallot where
  canonical_encode b := Value.canonical_record.2 (by simp)
  decode_encode b := Value.read_record rfl (by decide) (by simp)

instance : Lossless ContestTally where
  canonical_encode c := Value.canonical_record.2 (by simp)
  decode_encode c := Value.read_record rfl (by decide) (by simp)

instance : Lossless EncryptedTally where
  canonical_encode t := Value.canonical_record.2 (by simp)
  decode_encode t := Value.read_record rfl (by decide) (by simp)

instance : Lossless DecryptedSelection where
  canonical_encode s := Value.canonical_record.2 (by simp)
  decode_encode s := Value.read_record rfl (by decide) (by simp)

instance : Lossless DecryptedContestTally where
  canonical_encode c := Value.canonical_record.2 (by simp)
  decode_encode c := Value.read_record rfl (by decide) (by simp)

instance : Lossless DecryptedTally where
  canonical_encode t := Value.canonical_record.2 (by simp)
  decode_encode t := Value.read_record rfl (by decide) (by simp)

instance : Lossless DecryptedContestData where
  canonical_encode d := Value.canonical_record.2 (by simp)
  decode_encode d := Value.read_record rfl (by decide) (by simp)

instance : Lossless (Option DecryptedContestData) := Lossless.option nofun

instance : Lossless DecryptedContest where
  canonical_encode c := Value.canonical_record.2 (by simp)
  decode_encode c := Value.read_record rfl (by decide) (by simp)

instance : Lossless DecryptedBallot where
  canonical_encode b := Value.canonical_record.2 (by simp)
  decode_encode b := Value.read_record rfl (by decide) (by simp)

/-! ### Every form -/

/-- The form of a type round-trips through its text. -/
abbrev RoundTripsAs (α : Type) [Wire α] : Prop := RoundTrips (encode : α → Value) decode

theorem Lossless.roundTripsAs (α : Type) [Wire α] [Lossless α] : RoundTripsAs α :=
  roundTrips_of_read_write canonical_encode decode_encode

/-- In every form a value is read back from its text, different values have different texts, and
writing what was read from an accepted text is final. -/
theorem every_form_round_trips :
    RoundTrips encodeNat decodeNat ∧
    RoundTrips encodeBytes decodeBytes ∧
    RoundTripsAs Element ∧
    RoundTripsAs Exponent ∧
    RoundTripsAs Digest ∧
    RoundTripsAs Ciphertext ∧
    RoundTripsAs HashedCiphertext ∧
    RoundTripsAs Cipher ∧
    RoundTrips (encode : List Cipher → Value) decodeBatch ∧
    RoundTripsAs ChaumPedersenProof ∧
    RoundTripsAs SchnorrProof ∧
    RoundTripsAs Guardian ∧
    RoundTripsAs ElectionContext ∧
    RoundTripsAs LagrangeCoordinate ∧
    RoundTripsAs BatchId ∧
    RoundTripsAs PartialDecryption ∧
    RoundTripsAs PartialDecryptions ∧
    RoundTripsAs ChallengeResponses ∧
    RoundTripsAs TrusteeError ∧
    RoundTripsAs (List String) ∧
    RoundTripsAs Decryption ∧
    RoundTripsAs Decryptions ∧
    RoundTripsAs Metrics ∧
    RoundTripsAs EncryptedBallot ∧
    RoundTripsAs EncryptedTally ∧
    RoundTripsAs DecryptedSelection ∧
    RoundTripsAs DecryptedTally ∧
    RoundTripsAs DecryptedBallot ∧
    RoundTripsAs DecryptionConfig := by
  have hnat : RoundTrips encodeNat decodeNat :=
    roundTrips_of_read_write canonical_encodeNat decodeNat_encodeNat
  have hbytes : RoundTrips encodeBytes decodeBytes :=
    roundTrips_of_read_write canonical_encodeBytes decodeBytes_encodeBytes
  have hbatch : RoundTrips (encode : List Cipher → Value) decodeBatch :=
    roundTrips_of_read_write Lossless.canonical_encode decodeBatch_encode
  refine ⟨hnat, hbytes, ?_, ?_, ?_, ?_, ?_, ?_, hbatch, ?_⟩
  all_goals and_intros
  all_goals exact Lossless.roundTripsAs _

end ThresholdElGamal.Wire
