import ThresholdElGamal.Group.Power
import ThresholdElGamal.Json.Pointer
import ThresholdElGamal.Main
import ThresholdElGamal.Proofs.Decryption.Soundness
import ThresholdElGamal.Proofs.Trustee.Hiding
import ThresholdElGamal.Wire.Election
import ThresholdElGamal.Wire.Trustee
import ThresholdElGamal.Proofs.ChaumPedersen.Extraction
import ThresholdElGamal.Proofs.Decryption.Blame
import ThresholdElGamal.Proofs.Trustee.Histories
import ThresholdElGamal.Proofs.Decryption.ConcurrentSessions
import ThresholdElGamal.Proofs.Ballot.Ballots
import ThresholdElGamal.Proofs.Ballot.Tallies
import ThresholdElGamal.Proofs.Decryption.Configurations
import ThresholdElGamal.Proofs.Election.Secrecy
import ThresholdElGamal.Proofs.Election.Consistency
import ThresholdElGamal.Proofs.Decryption.Challenges
import ThresholdElGamal.Proofs.Bytes.Hex
import ThresholdElGamal.Proofs.Json.Literals
import ThresholdElGamal.Proofs.Json.RoundTrip
import ThresholdElGamal.Proofs.Json.Records
import ThresholdElGamal.Proofs.Wire.Lossless
import ThresholdElGamal.Proofs.Wire.Ciphertexts
import ThresholdElGamal.Proofs.Wire.Sessions
import ThresholdElGamal.Proofs.Wire.RoundTrip
import ThresholdElGamal.Proofs.Ciphertext.KeyInputs
import ThresholdElGamal.Proofs.Ciphertext.Hashed
import ThresholdElGamal.Proofs.Ballot.Sums
import ThresholdElGamal.Proofs.Decryption.Positions
import ThresholdElGamal.Proofs.Decryption.Outcomes
import ThresholdElGamal.Proofs.Decryption.Weights
import ThresholdElGamal.Proofs.Election.ShareKeys
import ThresholdElGamal.Proofs.Group.Subgroup
import ThresholdElGamal.Proofs.Election.Binding
import ThresholdElGamal.Proofs.Trustee.NonceInputs
