import ThresholdElGamal.Ballot.Opened
import ThresholdElGamal.Wire.Ciphertext

/-! # Ballots and tallies on the wire -/

namespace ThresholdElGamal.Wire

open Json (Slot)

instance : Wire EncryptedSelection where
  encode s := .record
    [("selection_id", encode s.selectionId), ("ciphertext", encode s.ciphertext)]
  decode v := do
    match ← v.slots? ["selection_id", "ciphertext"] with
    | [id, ciphertext] => return ⟨← required decode id, ← required decode ciphertext⟩
    | _ => none

instance : Wire EncryptedContest where
  encode c := .record
    [("contest_id", encode c.contestId), ("selections", encode c.selections),
      ("contest_data", encode c.contestData)]
  decode v := do
    match ← v.slots? ["contest_id", "selections", "contest_data"] with
    | [id, selections, data] =>
      return ⟨← required decode id, ← required decode selections, ← orDefault none decode data⟩
    | _ => none

instance : Wire EncryptedBallot where
  encode b := .record [("ballot_id", encode b.ballotId), ("contests", encode b.contests)]
  decode v := do
    match ← v.slots? ["ballot_id", "contests"] with
    | [id, contests] => return ⟨← required decode id, ← required decode contests⟩
    | _ => none

instance : Wire ContestTally where
  encode c := .record [("contest_id", encode c.contestId), ("selections", encode c.selections)]
  decode v := do
    match ← v.slots? ["contest_id", "selections"] with
    | [id, selections] => return ⟨← required decode id, ← required decode selections⟩
    | _ => none

instance : Wire EncryptedTally where
  encode t := .record [("contests", encode t.contests)]
  decode v := do
    match ← v.slots? ["contests"] with
    | [contests] => return ⟨← required decode contests⟩
    | _ => none

instance : Wire DecryptedSelection where
  encode s := .record
    [("selection_id", encode s.selectionId), ("tally", encode s.tally),
      ("value", encode s.value), ("ciphertext", encode s.ciphertext),
      ("decryption", encode s.decryption)]
  decode v := do
    match ← v.slots? ["selection_id", "tally", "value", "ciphertext", "decryption"] with
    | [id, tally, value, ciphertext, decryption] =>
      return ⟨← required decode id, ← required decode tally, ← required decode value,
        ← required decode ciphertext, ← required decode decryption⟩
    | _ => none

instance : Wire DecryptedContestTally where
  encode c := .record [("contest_id", encode c.contestId), ("selections", encode c.selections)]
  decode v := do
    match ← v.slots? ["contest_id", "selections"] with
    | [id, selections] => return ⟨← required decode id, ← required decode selections⟩
    | _ => none

instance : Wire DecryptedTally where
  encode t := .record [("contests", encode t.contests), ("guardian_ids", encode t.guardianIds)]
  decode v := do
    match ← v.slots? ["contests", "guardian_ids"] with
    | [contests, ids] => return ⟨← required decode contests, ← required decode ids⟩
    | _ => none

instance : Wire DecryptedContestData where
  encode d := .record
    [("data", encodeBytes d.data), ("ciphertext", encode d.ciphertext),
      ("decryption", encode d.decryption)]
  decode v := do
    match ← v.slots? ["data", "ciphertext", "decryption"] with
    | [data, ciphertext, decryption] =>
      return ⟨← required decodeBytes data, ← required decode ciphertext,
        ← required decode decryption⟩
    | _ => none

instance : Wire DecryptedContest where
  encode c := .record
    [("contest_id", encode c.contestId), ("selections", encode c.selections),
      ("contest_data", encode c.contestData)]
  decode v := do
    match ← v.slots? ["contest_id", "selections", "contest_data"] with
    | [id, selections, data] =>
      return ⟨← required decode id, ← required decode selections, ← orAbsent none decode data⟩
    | _ => none

instance : Wire DecryptedBallot where
  encode b := .record
    [("ballot_id", encode b.ballotId), ("contests", encode b.contests),
      ("guardian_ids", encode b.guardianIds)]
  decode v := do
    match ← v.slots? ["ballot_id", "contests", "guardian_ids"] with
    | [id, contests, ids] =>
      return ⟨← required decode id, ← required decode contests, ← required decode ids⟩
    | _ => none

end ThresholdElGamal.Wire
