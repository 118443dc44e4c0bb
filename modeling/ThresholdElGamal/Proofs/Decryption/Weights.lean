import ThresholdElGamal.Proofs.Decryption.Rounds

/-! # Weights of accepted trustees

The trustees of a decryptor are told apart by the names and coordinates of the guardians that they
stand for, not by a check of their own coordinates. So whoever answers, the weight of a responder
divides by the distances of all the others, and none of these is zero modulo `q`.
-/

namespace ThresholdElGamal

namespace Decryptor

/-- The weights of the trustees among each other are quotients: each divides by the distances of all
others, whose product has an inverse. -/
structure Separated (present : List TrusteeProfile) : Prop where
  others : ∀ t ∈ present, (present.map (·.xCoordinate)).filter (· != t.xCoordinate) =
    (present.erase t).map (·.xCoordinate)
  denominator : ∀ t ∈ present,
    (lagrangeDenominator t.xCoordinate (present.map (·.xCoordinate))).val % order ≠ 0
  weight : ∀ t ∈ present, lagrangeWeight t.xCoordinate (present.map (·.xCoordinate)) *
    lagrangeDenominator t.xCoordinate (present.map (·.xCoordinate)) =
      lagrangeNumerator t.xCoordinate (present.map (·.xCoordinate))

variable {context : ElectionContext} {roster : Roster} {trustees : List TrusteeProfile}
  {config : DecryptionConfig} {d : Decryptor}

theorem coordinate_pos (d : Decryptor) {t : TrusteeProfile} (ht : t ∈ d.trustees) :
    0 < t.xCoordinate := by
  obtain ⟨-, -, hfits, -⟩ := d.problems_eq_nil
  obtain ⟨g, hg, -, hx⟩ := hfits t ht
  rw [← hx]
  exact Roster.coordinate_pos (Roster.mem_of_get? hg).1

theorem filter_coordinates (d : Decryptor) {present : List TrusteeProfile}
    (hnodup : present.Nodup) (hpresent : present ⊆ d.trustees) {t : TrusteeProfile}
    (ht : t ∈ present) :
    (present.map (·.xCoordinate)).filter (· != t.xCoordinate) =
      (present.erase t).map (·.xCoordinate) := by
  rw [hnodup.erase_eq_filter, List.filter_map]
  congr 1
  apply List.filter_congr
  intro u hu
  have hiff : u.xCoordinate = t.xCoordinate ↔ u = t :=
    ⟨List.inj_on_of_nodup_map d.nodup_coordinates (hpresent hu) (hpresent ht), fun h => h ▸ rfl⟩
  rw [Function.comp_apply, Bool.eq_iff_iff, bne_iff_ne, bne_iff_ne, Ne, Ne, hiff]

theorem separated (d : Decryptor) {present : List TrusteeProfile} (hnodup : present.Nodup)
    (hpresent : present ⊆ d.trustees) : Separated present where
  others _ := d.filter_coordinates hnodup hpresent
  denominator _ _ := by
    rw [Ne, ← Nat.dvd_iff_mod_eq_zero, ← Exponent.residue_eq_zero_iff]
    exact residue_lagrangeDenominator_ne_zero _ _
  weight _ _ := lagrangeWeight_mul_denominator _ _

theorem nodup_trustees (d : Decryptor) : d.trustees.Nodup := .of_map _ d.nodup_ids

theorem pairwise_coordinates (d : Decryptor) :
    d.trustees.Pairwise fun t u => t.xCoordinate.toNat % order ≠ u.xCoordinate.toNat % order := by
  refine (List.pairwise_map.1 d.nodup_coordinates).imp ?_
  intro t u hne hmod
  rw [coordinate_mod_order, coordinate_mod_order] at hmod
  exact hne (UInt32.toNat_inj.1 hmod)

section Accepted

open Session

/-- The coordinates of accepted trustees are positive and different modulo `q`. So among any of them
every weight is a quotient by the distances of all others, and these are the weights of a session
with any replies, be it that all trustees answer or that some stay silent. -/
theorem weights_never_divide_by_zero (hnew : new context roster trustees config = .ok d) :
    (∀ t ∈ trustees, 0 < t.xCoordinate.toNat % order) ∧
      (trustees.Pairwise fun t u => t.xCoordinate.toNat % order ≠ u.xCoordinate.toNat % order) ∧
      (∀ present : List TrusteeProfile, present.Nodup → present ⊆ trustees → Separated present) ∧
      ∀ (n : ℕ) (replies : List (Reply PartialDecryptions)) (p : Panel),
        replies.length = trustees.length → assemble d n replies = .ok p →
          p.weights = weightsOf (p.responders.map (·.trustee)) ∧
            Separated (p.responders.map (·.trustee)) := by
  obtain ⟨-, -, rfl, -⟩ := new_eq_ok hnew
  refine ⟨?_, d.pairwise_coordinates, fun _ => d.separated, ?_⟩
  · intro t ht
    rw [coordinate_mod_order]
    exact UInt32.lt_iff_toNat_lt.1 (d.coordinate_pos ht)
  · intro n replies p hlength hassemble
    have hformed := formed_of_assemble hlength hassemble
    have hnodup := d.nodup_trustees.sublist hformed.trustees
    exact ⟨hformed.weights, d.separated hnodup hformed.trustees.subset⟩

/-- Of three trustees, not listed in the order of their coordinates, the last stays silent. -/
theorem weights_never_divide_by_zero_straggler :
    ∃ (roster : Roster) (context : ElectionContext) (d : Decryptor) (p : Panel),
      new context roster [⟨"c", 9, .generator⟩, ⟨"a", 5, .generator⟩, ⟨"b", 7, .generator⟩] {} =
          .ok d ∧
        assemble d 1 [.answered ⟨⟨1⟩, [⟨.one, .one, .one⟩], []⟩,
          .answered ⟨⟨2⟩, [⟨.one, .one, .one⟩], []⟩, .silent] = .ok p ∧
        p.weights = weightsOf [⟨"c", 9, .generator⟩, ⟨"a", 5, .generator⟩] ∧
        Separated [⟨"c", 9, .generator⟩, ⟨"a", 5, .generator⟩] := by
  let roster : Roster :=
    { guardians := [⟨"a", 5, [.generator], []⟩, ⟨"b", 7, [.generator], []⟩,
        ⟨"c", 9, [.generator], []⟩]
      accepted := by decide }
  let context : ElectionContext := ⟨3, 2, ElectionContext.parameterHash,
    ElectionContext.parameterHash, ElectionContext.parameterHash, ⟨64⟩⟩
  have hproblems : problems context roster
      [⟨"c", 9, .generator⟩, ⟨"a", 5, .generator⟩, ⟨"b", 7, .generator⟩] = [] := by decide
  have hnew : new context roster
      [⟨"c", 9, .generator⟩, ⟨"a", 5, .generator⟩, ⟨"b", 7, .generator⟩] {} = .ok _ :=
    dif_pos hproblems
  obtain ⟨-, -, -, hsession⟩ := weights_never_divide_by_zero hnew
  obtain ⟨hweights, hseparated⟩ := hsession 1 [.answered ⟨⟨1⟩, [⟨.one, .one, .one⟩], []⟩,
    .answered ⟨⟨2⟩, [⟨.one, .one, .one⟩], []⟩, .silent] _ rfl rfl
  exact ⟨roster, context, _, _, hnew, rfl, hweights, hseparated⟩

end Accepted

end Decryptor

end ThresholdElGamal
