import TreeSelectors.Proofs.Nth

/-!
# The arithmetic of positions

Whether a position belongs to a formula is decided by a subtraction, a remainder and a
division of 64-bit words.  Here each of them is undefined where words cannot express its
result, and the decision with them is never undefined up to the largest exact position.
-/

namespace TreeSelectors

namespace Nth

/-- An integer as a 64-bit word, if it lies in the range of one. -/
def word? (value : Int) : Option Int64 :=
  if Int64.minValue.toInt ≤ value ∧ value ≤ Int64.maxValue.toInt then
    some (Int64.ofInt value)
  else
    none

def difference? (left right : Int64) : Option Int64 :=
  word? (left.toInt - right.toInt)

def quotient? (left right : Int64) : Option Int64 :=
  if right = 0 then none else word? (left.toInt.tdiv right.toInt)

/-- The remainder of a division is undefined where the quotient is. -/
def remainder? (left right : Int64) : Option Int64 := do
  let _ ← quotient? left right
  word? (left.toInt.tmod right.toInt)

/-- Whether a position belongs to a formula, undefined as soon as an operation is. -/
def decides? (formula : Nth) (position : Nat) : Option Bool :=
  if position < 0x8000000000000000 then
    let step := formula.step.toInt64
    let offset := formula.offset.toInt64
    if step = 0 then
      some (Int64.ofNat position = offset)
    else do
      let distance ← difference? (Int64.ofNat position) offset
      let remainder ← remainder? distance step
      if remainder = 0 then
        let quotient ← quotient? distance step
        return 0 ≤ quotient
      else
        return false
  else
    some false

variable {formula : Nth} {position : Nat} {left right : Int64}

@[simp] theorem word?_toInt (word : Int64) : word? word.toInt = some word := by
  have low := word.le_toInt
  have high := word.toInt_lt
  have fits : Int64.minValue.toInt ≤ word.toInt ∧
      word.toInt ≤ Int64.maxValue.toInt := by
    rw [Int64.toInt_minValue, Int64.toInt_maxValue]
    omega
  rw [word?, if_pos fits, Int64.ofInt_toInt]

/-- The difference is defined where words subtract exactly. -/
theorem difference?_eq_some (exact : (left - right).toInt = left.toInt - right.toInt) :
    difference? left right = some (left - right) := by
  rw [difference?, ← exact, word?_toInt]

theorem quotient?_eq_some (nonzero : right ≠ 0) (inner : left ≠ Int64.minValue) :
    quotient? left right = some (left / right) := by
  rw [quotient?, if_neg nonzero, ← Int64.toInt_div_of_ne_left left right inner,
    word?_toInt]

theorem remainder?_eq_some (nonzero : right ≠ 0) (inner : left ≠ Int64.minValue) :
    remainder? left right = some (left % right) := by
  rw [remainder?, quotient?_eq_some nonzero inner, Option.bind_eq_bind, Option.bind_some,
    ← Int64.toInt_mod, word?_toInt]

/-- Up to the largest exact position, no operation is undefined. -/
theorem decides?_eq_some (small : position ≤ maxPosition) :
    formula.decides? position = some (formula.includes position) := by
  have inRange : position < 0x8000000000000000 := by
    simp only [maxPosition] at small
    omega
  have value : (Int64.ofNat position).toInt = position :=
    Int64.toInt_ofNat_of_lt (by omega)
  have exact : (Int64.ofNat position - formula.offset.toInt64).toInt =
      (Int64.ofNat position).toInt - formula.offset.toInt64.toInt := by
    rw [toInt_distance small, value, Int32.toInt_toInt64]
  simp only [decides?, includes, inRange, if_true]
  by_cases zero : formula.step.toInt64 = 0
  · rw [if_pos zero, if_pos zero]
  · have inner := @distance_ne_minValue formula position small
    rw [if_neg zero, if_neg zero, difference?_eq_some exact]
    simp only [Option.bind_eq_bind, Option.bind_some, remainder?_eq_some zero inner,
      quotient?_eq_some zero inner]
    split
    · rename_i divides
      simp [divides]
    · rename_i leavesRest
      simp [leavesRest]

/-- Up to the largest exact position, 64-bit words decide without overflow or division by
zero whether a position is the step, taken some natural number of times, and the
offset. -/
theorem includes_iff_exists (formula : Nth) (small : position ≤ maxPosition) :
    formula.decides? position = some (formula.includes position) ∧
      (formula.includes position = true ↔
        ∃ times : Nat, formula.step.toInt * times + formula.offset.toInt = position) := by
  refine ⟨decides?_eq_some small, ?_⟩
  rw [includes_iff_admits, Admits, if_pos small]

/-- The largest exact position is the greatest distance from the least offset. -/
theorem includes_iff_exists_largest :
    maxPosition ≤ maxPosition ∧
      (⟨337, Int32.minValue⟩ : Nth).decides? maxPosition = some true ∧
      ∃ times : Nat, (337 : Int) * times + Int32.minValue.toInt = maxPosition := by
  have decided := includes_iff_exists ⟨337, Int32.minValue⟩ (Nat.le_refl maxPosition)
  have included : (⟨337, Int32.minValue⟩ : Nth).includes maxPosition = true := by
    decide +kernel
  exact ⟨Nat.le_refl _, decided.1.trans (congrArg some included), decided.2.mp included⟩

/-- One position further, the distance from the least offset is too large. -/
example : (⟨1, Int32.minValue⟩ : Nth).decides? (maxPosition + 1) = none := by
  decide +kernel

end Nth

end TreeSelectors
