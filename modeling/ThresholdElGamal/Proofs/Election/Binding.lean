import ThresholdElGamal.Proofs.Election.Dealing
import ThresholdElGamal.Proofs.Hash.Fields

/-! # What the hashes of a context bind

The string that is hashed with the manifest ends with the counts, and the string that is hashed with
the joint key ends with the commitments of all guardians, without counts or separators between them.
All commitments are reduced, so each takes the full width, and an accepted roster has as many for
each guardian as the quorum says. So the two strings determine which guardian made which
commitment.
-/

namespace ThresholdElGamal

namespace Roster

/-- Coordinates are positive and distinct, so there are fewer guardians than words. -/
theorem size_lt (r : Roster) : r.size < 2 ^ 32 := by
  have hdistinct : (r.guardians.map fun g => g.xCoordinate.toNat).Nodup :=
    List.pairwise_map.2 (r.pairwise_distinct.imp fun hd h => hd.2 (UInt32.toNat_inj.1 h))
  have hpositive : 0 ∉ r.guardians.map fun g => g.xCoordinate.toNat := by
    intro hzero
    obtain ⟨g, hg, hx⟩ := List.mem_map.1 hzero
    exact (UInt32.lt_iff_toNat_lt.1 (coordinate_pos hg)).ne' hx
  have hwords : 0 :: (r.guardians.map fun g => g.xCoordinate.toNat) ⊆ List.range (2 ^ 32) := by
    intro m hm
    rw [List.mem_range]
    rcases List.mem_cons.1 hm with rfl | hm
    · exact Nat.two_pow_pos 32
    · obtain ⟨g, -, rfl⟩ := List.mem_map.1 hm
      exact g.xCoordinate.toNat_lt
  have hlength := ((List.nodup_cons.2 ⟨hpositive, hdistinct⟩).subperm hwords).length_le
  rw [List.length_cons, List.length_map, List.length_range] at hlength
  exact hlength

end Roster

namespace ElectionContext

variable {manifest manifest' : String} {quorum quorum' : UInt32} {r r' : Roster}
  {context context' : ElectionContext}

/-- The string that is hashed for the election base hash. -/
def electionString (manifest : String) (r : Roster) (quorum : UInt32) : Bytes :=
  Field.encode (electionInput manifest (UInt32.ofNat r.size) quorum)

/-- The string that is hashed for the extended base hash. -/
def extendedString (r : Roster) : Bytes :=
  Field.encode (extendedInput r.jointPublicKey r.guardians)

theorem hashes_of_derive (h : derive manifest r quorum = .ok context) :
    context.electionBaseHash =
        Hmac.mac context.parameterBaseHash.bytes (electionString manifest r quorum) ∧
      context.extendedBaseHash = Hmac.mac context.electionBaseHash.bytes (extendedString r) := by
  simp only [derive, unlessProblems_eq_ok] at h
  obtain ⟨-, rfl⟩ := h
  exact ⟨rfl, rfl⟩

theorem electionString_eq_iff :
    electionString manifest r quorum = electionString manifest' r' quorum' ↔
      manifest = manifest' ∧ r.size = r'.size ∧ quorum = quorum' := by
  constructor
  · intro h
    simp only [electionString, electionInput, Field.encode, Field.bytes, List.flatMap_cons,
      List.flatMap_nil, List.append_nil] at h
    -- the counts are split off first, since the length in front of the manifest may be cut
    obtain ⟨htext, hcounts⟩ := List.append_inj' (List.append_cancel_left h) rfl
    obtain ⟨hwords, hquorum⟩ := Bytes.ofUInt32_append_inj hcounts
    have hsize := congrArg UInt32.toNat hwords
    rw [UInt32.toNat_ofNat_of_lt' r.size_lt, UInt32.toNat_ofNat_of_lt' r'.size_lt] at hsize
    exact ⟨Field.textBytes_injective htext, hsize, Bytes.ofUInt32_injective hquorum⟩
  · rintro ⟨rfl, hsize, rfl⟩
    rw [electionString, electionString, hsize]

theorem commitment_lt (h : derive manifest r quorum = .ok context) :
    ∀ c ∈ r.guardians.flatMap (·.commitments), c.val < modulus := by
  intro c hc
  obtain ⟨g, hg, hc⟩ := List.mem_flatMap.1 hc
  exact (Element.isResidue_iff.1 ((commitments_of_derive h hg).2 c hc)).1

section Derived

variable (h : derive manifest r quorum = .ok context)
  (h' : derive manifest' r' quorum' = .ok context')
include h h'

theorem extendedString_eq_iff : extendedString r = extendedString r' ↔
    r.jointPublicKey = r'.jointPublicKey ∧
      r.guardians.flatMap (·.commitments) = r'.guardians.flatMap (·.commitments) := by
  constructor
  · intro hstrings
    simp only [extendedString, extendedInput, Field.encode, Field.bytes, List.flatMap_cons,
      List.flatMap_nil, List.append_nil] at hstrings
    obtain ⟨hkey, hcommitments⟩ := Element.bytes_append_inj (Element.prod_lt _)
      (Element.prod_lt _) (List.append_cancel_left hstrings)
    exact ⟨hkey, Element.flatMap_bytes_inj (commitment_lt h) (commitment_lt h') hcommitments⟩
  · rintro ⟨hkey, hcommitments⟩
    rw [extendedString, extendedString, extendedInput, extendedInput, hkey, hcommitments]

end Derived

/-- With so many commitments for each guardian, all of them in a row tell whose they are. -/
theorem commitments_eq_iff {m : ℕ} {gs gs' : List Guardian}
    (hgs : ∀ g ∈ gs, g.commitments.length = m) (hgs' : ∀ g ∈ gs', g.commitments.length = m)
    (hlength : gs.length = gs'.length) :
    gs.map (·.commitments) = gs'.map (·.commitments) ↔
      gs.flatMap (·.commitments) = gs'.flatMap (·.commitments) := by
  have hrows : ∀ gs : List Guardian, (∀ g ∈ gs, g.commitments.length = m) →
      (gs.map (·.commitments)).map List.length = List.replicate gs.length m := by
    intro gs hgs
    rw [List.map_map, List.eq_replicate_iff]
    exact ⟨List.length_map _, List.forall_mem_map.2 hgs⟩
  rw [List.eq_iff_flatten_eq, hrows gs hgs, hrows gs' hgs', hlength, and_iff_left rfl]
  rfl

/-- The hashes of a context are those of two strings, and the strings behind two contexts agree
exactly when the manifests, the counts, the joint keys and the commitments of each guardian do. -/
theorem base_hashes_bind (h : derive manifest r quorum = .ok context)
    (h' : derive manifest' r' quorum' = .ok context') :
    (context.electionBaseHash =
        Hmac.mac context.parameterBaseHash.bytes (electionString manifest r quorum) ∧
      context.extendedBaseHash = Hmac.mac context.electionBaseHash.bytes (extendedString r)) ∧
    (electionString manifest r quorum = electionString manifest' r' quorum' ∧
        extendedString r = extendedString r' ↔
      manifest = manifest' ∧ r.size = r'.size ∧ quorum = quorum' ∧
        r.jointPublicKey = r'.jointPublicKey ∧
          r.guardians.map (·.commitments) = r'.guardians.map (·.commitments)) := by
  refine ⟨hashes_of_derive h, ?_⟩
  rw [electionString_eq_iff, extendedString_eq_iff h h', and_assoc, and_assoc]
  refine and_congr_right fun _ => and_congr_right fun hsize => and_congr_right ?_
  rintro rfl
  rw [commitments_eq_iff (fun g hg => (commitments_of_derive h hg).1)
    (fun g hg => (commitments_of_derive h' hg).1) hsize]

/-- The roster of two guardians with two coefficients each, under two manifests. -/
theorem base_hashes_bind_two_manifests :
    ∃ (r : Roster) (context context' : ElectionContext),
      derive "general" r 2 = .ok context ∧ derive "special" r 2 = .ok context' ∧
        electionString "general" r 2 ≠ electionString "special" r 2 := by
  have hrows : ∀ row ∈ [[Exponent.mk 3, ⟨5⟩], [⟨7⟩, ⟨11⟩]], row.length = (2 : UInt32).toNat := by
    decide
  obtain ⟨e, he⟩ : ∃ e, Dealer.deal "general" 2 1 [[⟨3⟩, ⟨5⟩], [⟨7⟩, ⟨11⟩]]
      [[⟨3⟩, ⟨5⟩], [⟨7⟩, ⟨11⟩]] = .ok e :=
    Dealer.deal_ok "general" 1 rfl (by decide) (by decide) (by decide) hrows hrows
  obtain ⟨-, hderive, -⟩ := Dealer.deal_eq_ok he
  obtain ⟨context', hderive'⟩ := derive_ok "special" (derive_eq_ok hderive).1
  refine ⟨e.roster, e.context, context', hderive, hderive', fun hsame => ?_⟩
  obtain ⟨hmanifest, -⟩ := (base_hashes_bind hderive hderive').2.1 ⟨hsame, rfl⟩
  exact absurd hmanifest (by decide)

end ElectionContext

end ThresholdElGamal
