import ThresholdElGamal.Election.Context
import ThresholdElGamal.Group.Interpolation
import ThresholdElGamal.Wire.Ciphertext

/-! # Election records on the wire -/

namespace ThresholdElGamal.Wire

instance : Wire Guardian where
  encode g := .record
    [("guardian_id", encode g.id), ("x_coordinate", encode g.xCoordinate),
      ("coefficient_commitments", encode g.commitments), ("coefficient_proofs", encode g.proofs)]
  decode v := do
    match ← v.slots?
        ["guardian_id", "x_coordinate", "coefficient_commitments", "coefficient_proofs"] with
    | [id, x, commitments, proofs] =>
      return ⟨← required decode id, ← required decode x, ← required decode commitments,
        ← required decode proofs⟩
    | _ => none

instance : Wire ElectionContext where
  encode c := .record
    [("number_of_guardians", encode c.numberOfGuardians), ("quorum", encode c.quorum),
      ("parameter_base_hash", encode c.parameterBaseHash),
      ("election_base_hash", encode c.electionBaseHash),
      ("extended_base_hash", encode c.extendedBaseHash),
      ("joint_public_key", encode c.jointPublicKey)]
  decode v := do
    match ← v.slots? ["number_of_guardians", "quorum", "parameter_base_hash",
        "election_base_hash", "extended_base_hash", "joint_public_key"] with
    | [n, quorum, parameter, election, extended, key] =>
      return ⟨← required decode n, ← required decode quorum, ← required decode parameter,
        ← required decode election, ← required decode extended, ← required decode key⟩
    | _ => none

instance : Wire LagrangeCoordinate where
  encode w := .record
    [("guardian_id", encode w.guardianId), ("x_coordinate", encode w.xCoordinate),
      ("coefficient", encode w.coefficient)]
  decode v := do
    match ← v.slots? ["guardian_id", "x_coordinate", "coefficient"] with
    | [id, x, coefficient] =>
      return ⟨← required decode id, ← required decode x, ← required decode coefficient⟩
    | _ => none

end ThresholdElGamal.Wire
