/-!
# Walks with a stack

A walk over a tree keeps the nodes that come next on a stack.  The first of them gives
way to its children.  As long as each node may be followed only a number of levels
downwards, every such walk ends.
-/

namespace TreeSelectors

/-- How the numbers of levels on a stack change when its first node gives way to
its children. -/
inductive Unfolds : List Nat → List Nat → Prop where
  | first (count levels : Nat) (rest : List Nat) :
      Unfolds (List.replicate count levels ++ rest) ((levels + 1) :: rest)

namespace Unfolds

theorem acc_cons (levels : Nat) {rest : List Nat}
    (accessible : Acc Unfolds rest) : Acc Unfolds (levels :: rest) := by
  induction levels generalizing rest with
  | zero =>
      constructor
      intro smaller unfolds
      cases unfolds
  | succ levels induction =>
      constructor
      intro smaller unfolds
      cases unfolds with
      | first count =>
          -- The children are put on the stack one by one.
          induction count with
          | zero => exact accessible
          | succ count fewer => exact induction fewer

theorem wellFounded : WellFounded Unfolds := by
  constructor
  intro stack
  induction stack with
  | nil =>
      constructor
      intro smaller unfolds
      cases unfolds
  | cons levels rest induction => exact acc_cons levels induction

/-- A node gives way to its children, from each of which there is one level less to
go. -/
theorem of_children {ν : Type} (children : List ν) (levels : Nat)
    (rest : List (Nat × ν)) :
    Unfolds ((children.map (levels, ·) ++ rest).map Prod.fst)
      ((levels + 1) :: rest.map Prod.fst) := by
  have levelsBelow :
      (children.map (levels, ·)).map Prod.fst =
        List.replicate children.length levels := by
    rw [List.map_map, ← List.map_const']
    rfl
  rw [List.map_append, levelsBelow]
  exact .first children.length levels _

end Unfolds

end TreeSelectors
