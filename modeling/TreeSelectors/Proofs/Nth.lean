import TreeSelectors.Proofs.Matching.Semantics

/-!
# Positions of `An+B` formulas

Up to the largest exact position, the 64-bit test of a position finds whether
some multiple of the step and the offset add up to it.
-/

namespace TreeSelectors

namespace Nth

theorem step_eq_zero_iff {formula : Nth} :
    formula.step.toInt64 = 0 ↔ formula.step.toInt = 0 := by
  rw [← Int64.toInt_inj, Int32.toInt_toInt64, Int64.toInt_zero]

/-- Below the limit, the distance from the offset is exact. -/
theorem toInt_distance {formula : Nth} {position : Nat}
    (small : position ≤ maxPosition) :
    (Int64.ofNat position - formula.offset.toInt64).toInt =
      position - formula.offset.toInt := by
  have low := formula.offset.le_toInt
  have high := formula.offset.toInt_lt
  simp only [maxPosition] at small
  rw [Int64.toInt_sub, Int32.toInt_toInt64,
    Int64.toInt_ofNat_of_lt (by omega)]
  exact Int.bmod_eq_of_le (by omega) (by omega)

theorem distance_ne_minValue {formula : Nth} {position : Nat}
    (small : position ≤ maxPosition) :
    Int64.ofNat position - formula.offset.toInt64 ≠ Int64.minValue := by
  intro equality
  have value := @toInt_distance formula position small
  have high := formula.offset.toInt_lt
  rw [equality, Int64.toInt_minValue] at value
  omega

/-- A distance is a natural multiple of a step that is not zero if it leaves no
remainder and the quotient is not negative. -/
theorem exists_mul_eq_iff {step distance : Int} (nonzero : step ≠ 0) :
    (∃ times : Nat, step * times = distance) ↔
      distance.tmod step = 0 ∧ 0 ≤ distance.tdiv step := by
  constructor
  · intro multiple
    obtain ⟨times, rfl⟩ := multiple
    rw [Int.mul_tdiv_cancel_left _ nonzero]
    exact ⟨Int.mul_tmod_right _ _, Int.natCast_nonneg times⟩
  · intro bounds
    obtain ⟨exact, positive⟩ := bounds
    obtain ⟨times, rfl⟩ := Int.dvd_of_tmod_eq_zero exact
    rw [Int.mul_tdiv_cancel_left _ nonzero] at positive
    obtain ⟨natural, rfl⟩ := Int.eq_ofNat_of_zero_le positive
    exact ⟨natural, rfl⟩

theorem includes_iff_admits {formula : Nth} {position : Nat} :
    formula.includes position = true ↔ formula.Admits position := by
  unfold Admits
  by_cases small : position ≤ maxPosition
  · rw [if_pos small]
    have inRange : position < 0x8000000000000000 := by
      simp only [maxPosition] at small
      omega
    have same : (∃ times : Nat, formula.step.toInt * times + formula.offset.toInt =
        position) ↔ ∃ times : Nat, formula.step.toInt * times =
          position - formula.offset.toInt := by
      refine exists_congr fun times => ?_
      omega
    rw [same]
    simp only [includes, inRange, if_true]
    by_cases zero : formula.step.toInt = 0
    · rw [if_pos (step_eq_zero_iff.mpr zero), decide_eq_true_iff,
        ← Int64.toInt_inj, Int32.toInt_toInt64,
        Int64.toInt_ofNat_of_lt (by omega)]
      simp only [zero, Int.zero_mul, exists_const]
      omega
    · rw [if_neg (mt step_eq_zero_iff.mp zero), exists_mul_eq_iff zero,
        Bool.and_eq_true, decide_eq_true_iff, decide_eq_true_iff,
        ← Int64.toInt_inj, Int64.toInt_mod, Int64.le_iff_toInt_le,
        Int64.toInt_div_of_ne_left _ _ (distance_ne_minValue small),
        toInt_distance small, Int32.toInt_toInt64, Int64.toInt_zero]
  · rw [if_neg small]

end Nth

end TreeSelectors
