import TreeSelectors.Proofs.Matching.Selecting

/-!
# A selector within `:is()`

An abbreviation is read as `:is()` over the selector that it stands for.  That costs
one more level, and hides the tags of the subjects from the filter.  Apart from that
no view, however it answers, can tell the two selectors apart.
-/

namespace TreeSelectors

variable {ν : Type} [DecidableEq ν] {view : TreeView ν}

namespace Matching

/-- Matching `:is()` is matching its argument one level deeper. -/
theorem accepts_is {levels : Nat} {node : ν} {tag : String}
    (own : view.tagName node = .ok (some tag))
    (selector : Selector) :
    Selector.accepts view (levels + 1) [⟨[.functional .is selector], [], none⟩] node =
      anyChain (attempt view (levels + 1) levels) node selector := by
  simp only [Selector.accepts, anyChain, attempt, compoundHolds, own, allHold,
    simpleHolds]
  cases anyChain (attempt view (levels + 1) levels) node selector with
  | error failure => rfl
  | ok holds =>
      cases holds with
      | false => rfl
      | true => rfl

end Matching

namespace Selector

/-- Whatever the limits, a selector and `:is()` over it are not answered differently
on any node. -/
theorem tests_is_agree (selector : Selector) (maxDepth other : Nat) (node : ν) :
    Agrees (tests view maxDepth [⟨[.functional .is selector], [], none⟩] node)
      (selector.tests view other node) := by
  have shifted (tag : String) (own : view.tagName node = .ok (some tag)) (answer : Bool)
      (answered : Selector.accepts view maxDepth [⟨[.functional .is selector], [], none⟩]
        node = .ok answer) :
      ∃ levels, Matching.anyChain (Matching.attempt view maxDepth levels) node selector =
        .ok answer := by
    cases maxDepth with
    | zero => simp [Selector.accepts, Matching.anyChain, Matching.attempt] at answered
    | succ levels => exact ⟨levels, Matching.accepts_is own selector ▸ answered⟩
  refine tests_agree ?agrees ?forth ?back
  case agrees =>
    intro tag own first second answered answeredOther
    obtain ⟨levels, inner⟩ := shifted tag own first answered
    exact Matching.anyChain_answers_eq inner answeredOther
  case forth =>
    intro tag own answered
    obtain ⟨levels, inner⟩ := shifted tag own true answered
    exact Matching.passes_of_anyChain (fun chain member => ⟨chain, member, fun _ => id⟩)
      own inner
  case back =>
    intro tag own answered
    rfl

/-- On every view, a selector and `:is()` over it select the same nodes, whenever both
give an answer. -/
theorem select_is_eq {selector : Selector} {maxDepth other : Nat} {root : ν}
    {found foundOther : List ν}
    (answered : Selector.select view maxDepth [⟨[.functional .is selector], [], none⟩]
      (.ofSelector [⟨[.functional .is selector], [], none⟩]) root = .ok found)
    (answeredOther : Selector.select view other selector (.ofSelector selector) root =
      .ok foundOther) : found = foundOther :=
  select_agrees (tests_is_agree selector maxDepth other) root _ _ answered answeredOther

end Selector

end TreeSelectors
