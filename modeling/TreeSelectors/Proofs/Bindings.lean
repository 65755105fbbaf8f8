import Mathlib.Data.List.Nodup

/-!
# Lists of bindings

Where no key is bound twice, the order of the bindings does not matter.
-/

namespace TreeSelectors

variable {α β : Type} [DecidableEq α]

theorem lookup_eq_of_perm {first second : List (α × β)}
    (distinct : (first.map Prod.fst).Nodup) (permuted : first.Perm second) (key : α) :
    first.lookup key = second.lookup key := by
  induction permuted with
  | nil => rfl
  | cons binding _ induction =>
      obtain ⟨bound, value⟩ := binding
      have rest := induction (List.nodup_cons.mp distinct).2
      rw [List.lookup_cons, List.lookup_cons, rest]
  | swap left right others =>
      obtain ⟨leftKey, leftValue⟩ := left
      obtain ⟨rightKey, rightValue⟩ := right
      have different : rightKey ≠ leftKey := by
        rintro rfl
        simp at distinct
      rw [List.lookup_cons, List.lookup_cons, List.lookup_cons, List.lookup_cons]
      by_cases isLeft : key = leftKey
      · have notRight : (key == rightKey) = false :=
          beq_eq_false_iff_ne.mpr fun isRight => different (isRight.symm.trans isLeft)
        rw [notRight]
      · rw [beq_eq_false_iff_ne.mpr isLeft]
  | trans firstStep _ left right =>
      exact (left distinct).trans (right ((firstStep.map _).nodup_iff.mp distinct))

end TreeSelectors
