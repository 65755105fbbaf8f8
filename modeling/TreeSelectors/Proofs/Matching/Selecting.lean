import TreeSelectors.Proofs.Matching.Agreement
import TreeSelectors.Proofs.Matching.Prefilter
import TreeSelectors.Proofs.Matching.Search

/-!
# The questions that selecting asks

Selecting asks the filter about the tag of each node before it matches the node.  The
filter lets through whatever matches, also if it was made for another selector that asks
for the same tags.
-/

namespace TreeSelectors

variable {ν : Type} {view : TreeView ν}

/-- Walks whose tests agree find the same nodes. -/
theorem TreeView.walk_agrees {test other : ν → Except MatchError Bool}
    (agrees : ∀ node, Agrees (test node) (other node)) (stack : List (Nat × ν)) :
    Agrees (view.walk test stack) (view.walk other stack) := by
  fun_induction TreeView.walk view test stack with
  | case1 =>
      rw [TreeView.walk]
      exact .refl _
  | case2 => exact fun _ _ answered => absurd answered (by simp)
  | case3 levels node rest induction =>
      rw [TreeView.walk]
      refine (agrees node).bind fun keep => (Agrees.refl _).bind fun children => ?_
      exact (induction children).bind fun others => .refl _

/-- A walk goes from a node to its children before it goes on. -/
theorem TreeView.walk_kept {test : ν → Except MatchError Bool} {keep : ν → Bool}
    {levels : Nat} {node : ν} {children others : List ν} {rest : List (Nat × ν)}
    (asked : test node = .ok (keep node)) (below : view.children node = .ok children)
    (walked : view.walk test (children.map (levels, ·) ++ rest) =
      .ok (others.filter keep)) :
    view.walk test ((levels + 1, node) :: rest) = .ok ((node :: others).filter keep) := by
  simp only [TreeView.walk, bind_eq_ok, pure_eq_ok, liftM_eq_ok]
  exact ⟨_, asked, children, below, _, walked, List.filter_cons.symm⟩

variable [DecidableEq ν]

namespace Matching

variable {node : ν} {tag : String}

/-- Where a chain matches, the tag is the one that its subject asks for. -/
theorem sameFolded_of_matched {limit remaining : Nat} {compound : Compound}
    {left : List (Combinator × Compound)} {scope : Option (Scope ν)}
    (own : view.tagName node = .ok (some tag))
    (matched : attempt view limit remaining compound left node scope = .ok .matched)
    {name : String} (member : .type name ∈ compound) : Text.sameFolded tag name = true := by
  cases remaining with
  | zero => exact absurd matched attempt_zero_ne_ok
  | succ remaining =>
      have met := (attempted_of_attempt matched).holds
      simp only [compoundHolds, bind_eq_ok, liftM_eq_ok, own, Except.ok.injEq,
        exists_eq_left', allHold_eq_allM] at met
      exact Except.ok.inj (forall_of_allM met _ member)

/-- An element that matches has a tag that a filter lets through, whatever else the view
answers, if the filter asks for no tag that the matched chain does not ask for. -/
theorem passes_of_anyChain {limit remaining : Nat} {selector other : Selector}
    (asks : ∀ chain ∈ selector, ∃ counterpart ∈ other,
      ∀ name, Simple.type name ∈ counterpart.subject → .type name ∈ chain.subject)
    (own : view.tagName node = .ok (some tag))
    (answered : anyChain (attempt view limit remaining) node selector = .ok true) :
    (Prefilter.ofSelector other).accepts tag = true := by
  rw [anyChain_eq_anyM] at answered
  obtain ⟨chain, member, matched⟩ := exists_of_anyM answered
  rw [isMatched_eq_ok_true_iff] at matched
  obtain ⟨counterpart, memberOther, subset⟩ := asks chain member
  refine Prefilter.accepts_of_subject memberOther fun name named => ?_
  obtain ⟨simple, inSubject, isType⟩ := List.exists_of_findSome?_eq_some named
  cases simple with
  | type =>
      cases isType
      have same := sameFolded_of_matched own matched (subset _ inSubject)
      simpa [Text.sameFolded] using same
  | _ => cases isType

end Matching

namespace Selector

/-- The question that selecting asks about each node. -/
def tests (view : TreeView ν) (maxDepth : Nat) (selector : Selector) (node : ν) :
    Except MatchError Bool := do
  if (← view.tagName node).any (Prefilter.ofSelector selector).accepts then
    Selector.accepts view maxDepth selector node
  else
    return false

theorem select_eq_collect (maxDepth : Nat) (selector : Selector) (root : ν) :
    Selector.select view maxDepth selector (.ofSelector selector) root =
      view.collect (selector.tests view maxDepth) root :=
  rfl

/-- Selectors that agree on an element are asked about it, or each of them is refused
where only the filter of the other one asks. -/
theorem tests_agree {selector other : Selector} {maxDepth limit : Nat} {node : ν}
    (agrees : ∀ tag, view.tagName node = .ok (some tag) →
      Agrees (selector.accepts view maxDepth node) (other.accepts view limit node))
    (forth : ∀ tag, view.tagName node = .ok (some tag) →
      selector.accepts view maxDepth node = .ok true →
      (Prefilter.ofSelector other).accepts tag = true)
    (back : ∀ tag, view.tagName node = .ok (some tag) →
      other.accepts view limit node = .ok true →
      (Prefilter.ofSelector selector).accepts tag = true) :
    Agrees (selector.tests view maxDepth node) (other.tests view limit node) := by
  intro first second answered answeredOther
  simp only [tests, bind_eq_ok, liftM_eq_ok] at answered answeredOther
  obtain ⟨tag, own, answered⟩ := answered
  obtain ⟨_, ownOther, answeredOther⟩ := answeredOther
  cases own.symm.trans ownOther
  cases tag with
  | none =>
      simp only [Option.any_none, Bool.false_eq_true, if_false] at answered answeredOther
      exact Except.ok.inj (answered.symm.trans answeredOther)
  | some tag =>
      rw [Option.any_some] at answered answeredOther
      cases passes : (Prefilter.ofSelector selector).accepts tag with
      | true =>
          cases passesOther : (Prefilter.ofSelector other).accepts tag with
          | true =>
              rw [passes, if_pos rfl] at answered
              rw [passesOther, if_pos rfl] at answeredOther
              exact agrees tag own _ _ answered answeredOther
          | false =>
              rw [passes, if_pos rfl] at answered
              rw [passesOther] at answeredOther
              cases answeredOther
              cases first with
              | false => rfl
              | true => cases passesOther.symm.trans (forth tag own answered)
      | false =>
          cases passesOther : (Prefilter.ofSelector other).accepts tag with
          | true =>
              rw [passes] at answered
              rw [passesOther, if_pos rfl] at answeredOther
              cases answered
              cases second with
              | false => rfl
              | true => cases passes.symm.trans (back tag own answeredOther)
          | false =>
              rw [passes] at answered
              rw [passesOther] at answeredOther
              exact Except.ok.inj (answered.symm.trans answeredOther)

theorem select_agrees {selector other : Selector} {maxDepth limit : Nat}
    (agree : ∀ node, Agrees (selector.tests view maxDepth node)
      (other.tests view limit node)) (root : ν) :
    Agrees (Selector.select view maxDepth selector (.ofSelector selector) root)
      (Selector.select view limit other (.ofSelector other) root) := by
  rw [select_eq_collect, select_eq_collect]
  exact TreeView.walk_agrees agree _

end Selector

end TreeSelectors
