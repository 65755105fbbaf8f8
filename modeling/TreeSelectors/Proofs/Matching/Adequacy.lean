import TreeSelectors.Proofs.Matching.Agreement
import TreeSelectors.Proofs.Matching.Conditions
import TreeSelectors.Proofs.Matching.Region

/-!
# Adequacy of matching

Whenever matching gives an answer, it is what the meaning of the selector says.
The induction is on the levels that an attempt may go deeper: attempts with one
level less serve both the compounds farther left and the arguments of functional
pseudo-classes.
-/

namespace TreeSelectors

namespace Matching

variable {ν : Type} [DecidableEq ν] {view : TreeView ν} {forest : Forest ν}

/-- What a scope asks of the leftmost element of a chain. -/
def Starts (forest : Forest ν) : Option (Scope ν) → ν → Prop
  | none, _ => True
  | some scope, leftmost => scope.anchor.Relates forest scope.element leftmost

/-- Every outcome of a matcher is sound for the meaning of the compounds that it
is given, as long as scopes start from elements. -/
def Adequate (forest : Forest ν) (attempt : ChainMatcher ν) : Prop :=
  ∀ {compound left node scope outcome anchor},
    (∀ known, scope = some known → forest.isElement known.element = true) →
    attempt compound left node scope = .ok outcome →
      outcome.Sound forest
        (Chain.Holds forest (Starts forest scope) ⟨compound, left, anchor⟩) node

section

variable {attempt : ChainMatcher ν} (adequate : Adequate forest attempt)
include adequate

private theorem anyChain_iff {node : ν} {selector : Selector} {answer : Bool}
    (answered : anyChain attempt node selector = .ok answer) :
    answer = true ↔ Selector.Holds forest selector node := by
  rw [anyChain_eq_anyM] at answered
  rw [Selector.holds_iff]
  refine anyM_iff (fun chain _ passes tested => ?_) answered
  obtain ⟨subject, left, anchor⟩ := chain
  obtain ⟨outcome, tried, rfl⟩ := isMatched_eq_ok_iff.mp tested
  rw [decide_eq_true_iff]
  exact (adequate (by simp) tried).matched_iff

private theorem anyCandidate_iff {chain : Chain} {scope : Scope ν} {choices : List ν}
    {answer : Bool} (fits : forest.isElement scope.element = true)
    (answered : anyCandidate attempt chain scope choices = .ok answer) :
    answer = true ↔ ∃ choice ∈ choices,
      Chain.Holds forest (Starts forest (some scope)) chain choice := by
  rw [anyCandidate_eq_anyM] at answered
  obtain ⟨subject, left, anchor⟩ := chain
  refine anyM_iff (fun choice _ passes tested => ?_) answered
  obtain ⟨outcome, tried, rfl⟩ := isMatched_eq_ok_iff.mp tested
  rw [decide_eq_true_iff]
  exact (adequate (by rintro _ ⟨⟩; exact fits) tried).matched_iff

variable (tells : view.Tells forest) (consistent : forest.Consistent)
include tells consistent

private theorem has_iff {node : ν} {selector : Selector} {answer : Bool}
    (isElement : forest.isElement node = true)
    (answered : has view attempt node selector = .ok answer) :
    answer = true ↔ Selector.HoldsFrom forest selector node := by
  rw [has_eq_anyM] at answered
  rw [Selector.holdsFrom_iff]
  refine anyM_iff (fun chain _ passes tested => ?_) answered
  obtain ⟨subject, left, anchor⟩ := chain
  rw [bind_eq_ok] at tested
  obtain ⟨choices, known, tried⟩ := tested
  rw [anyCandidate_iff adequate isElement tried]
  refine exists_congr fun element => and_iff_right_of_imp fun holds => ?_
  exact mem_region tells consistent known holds

private theorem simpleHolds_iff {node : ν} {tag : String}
    (own : forest.tag node = some tag) {simple : Simple} {answer : Bool}
    (answered : simpleHolds view attempt node tag simple = .ok answer) :
    answer = true ↔ simple.Holds forest node := by
  have isElement : forest.isElement node = true := by
    rw [Forest.isElement, own, Option.isSome_some]
  cases simple with
  | type name =>
      simp only [simpleHolds, pure_eq_ok] at answered
      simp [← answered, Simple.Holds, own]
  | universal =>
      simp only [simpleHolds, pure_eq_ok] at answered
      simp [← answered, Simple.Holds]
  | id name =>
      simp only [simpleHolds, bind_eq_ok, liftM_eq_ok, pure_eq_ok] at answered
      obtain ⟨value, known, rfl⟩ := answered
      simp [Simple.Holds, ← tells.id known]
  | className name =>
      simp only [simpleHolds, liftM_eq_ok] at answered
      rw [tells.hasClass answered, Option.any_eq_true]
      rfl
  | «attribute» test =>
      simp only [simpleHolds, bind_eq_ok, liftM_eq_ok, pure_eq_ok] at answered
      obtain ⟨value, known, rfl⟩ := answered
      simp only [Simple.Holds, ← tells.attributeValue known]
  | plain pseudoClass =>
      simp only [Simple.Holds]
      exact plainHolds_iff tells consistent own answered
  | nth counting formula =>
      simp only [simpleHolds, bind_eq_ok, pure_eq_ok] at answered
      obtain ⟨position, found, rfl⟩ := answered
      rw [Simple.Holds, ← counted_eq tells consistent own found]
      exact Nth.includes_iff_admits
  | functional function argument =>
      cases function with
      | is =>
          rw [Simple.Holds]
          exact anyChain_iff adequate answered
      | not =>
          simp only [simpleHolds, bind_eq_ok, pure_eq_ok] at answered
          obtain ⟨found, tried, rfl⟩ := answered
          rw [Simple.Holds, ← anyChain_iff adequate tried]
          simp
      | has =>
          rw [Simple.Holds]
          exact has_iff adequate tells consistent isElement answered
  | pseudoElement name =>
      simp only [simpleHolds, pure_eq_ok] at answered
      simp [← answered, Simple.Holds]

private theorem allHold_iff {node : ν} {tag : String}
    (own : forest.tag node = some tag) {compound : Compound} {answer : Bool}
    (answered : allHold view attempt node tag compound = .ok answer) :
    answer = true ↔ Compound.Holds forest compound node := by
  rw [allHold_eq_allM] at answered
  rw [Compound.holds_iff]
  exact allM_iff (fun simple _ _ tested =>
    simpleHolds_iff adequate tells consistent own tested) answered

private theorem compoundHolds_iff {node : ν} {compound : Compound} {answer : Bool}
    (answered : compoundHolds view attempt compound node = .ok answer) :
    answer = true ↔ forest.isElement node = true ∧
      Compound.Holds forest compound node := by
  simp only [compoundHolds, bind_eq_ok, liftM_eq_ok] at answered
  obtain ⟨name, known, answered⟩ := answered
  have own := tells.tagName known
  rw [Forest.isElement, ← own]
  cases name with
  | none =>
      simp only [pure_eq_ok] at answered
      simp [← answered]
  | some tag =>
      simp only at answered
      simp [allHold_iff adequate tells consistent own.symm answered]

end

/-- The check at the left end of a chain. -/
theorem related_iff (tells : view.Tells forest) {anchor : Combinator}
    {element node : ν} {answer : Bool}
    (isElement : forest.isElement element = true)
    (answered : related view anchor element node = .ok answer) :
    answer = true ↔ anchor.Relates forest element node := by
  cases anchor with
  | descendant => exact tells.isBelow answered
  | child =>
      simp only [related, bind_eq_ok, liftM_eq_ok, pure_eq_ok] at answered
      obtain ⟨parent, known, rfl⟩ := answered
      rw [tells.parent known, decide_eq_true_iff]
      rfl
  | nextSibling =>
      simp only [related, bind_eq_ok, pure_eq_ok] at answered
      obtain ⟨elements, known, rfl⟩ := answered
      rw [tells.previousElements known, List.head?_reverse, decide_eq_true_iff]
      rfl
  | laterSibling =>
      simp only [related, bind_eq_ok, pure_eq_ok] at answered
      obtain ⟨elements, known, rfl⟩ := answered
      rw [tells.previousElements known, decide_eq_true_iff, List.mem_reverse,
        List.mem_filter]
      exact and_iff_left isElement

section

variable {node : ν} {compound : Compound} {anchor : Option Combinator}
  {outcome : Attempt} (isElement : forest.isElement node = true)
  (ownHolds : Compound.Holds forest compound node)
include isElement ownHolds

/-- What is sound for the compounds farther left is sound for the whole chain at
a node at which its own compound matches. -/
theorem Attempt.Sound.holds {start : ν → Prop} {combinator : Combinator}
    {next : Compound} {further : List (Combinator × Compound)}
    (leads : outcome.Sound forest
      (Leads forest (Chain.Holds forest start ⟨next, further, anchor⟩) combinator)
      node) :
    outcome.Sound forest
      (Chain.Holds forest start ⟨compound, (combinator, next) :: further, anchor⟩)
      node := by
  refine leads.mono (fun other holds => ?_) fun reaches => ?_
  · rw [Chain.Holds, Chain.Links] at holds
    obtain ⟨-, -, left, leftElement, relates, nextHolds, links⟩ := holds
    refine ⟨left, leftElement, relates, ?_⟩
    rw [Chain.Holds]
    exact ⟨leftElement, nextHolds, links⟩
  · obtain ⟨left, leftElement, relates, holds⟩ := reaches
    rw [Chain.Holds] at holds ⊢
    rw [Chain.Links]
    exact ⟨isElement, ownHolds, left, leftElement, relates, holds.2⟩

end

section

variable (tells : view.Tells forest) (consistent : forest.Consistent)
  (inner : forest.InnerElements)
include tells consistent inner

/-- Attempts are adequate, however many levels they may go deeper. -/
theorem attempt_adequate (limit remaining : Nat) :
    Adequate forest (attempt view limit remaining) := by
  induction remaining with
  | zero =>
      intro compound left node scope outcome anchor _ answered
      exact absurd answered attempt_zero_ne_ok
  | succ remaining induction =>
      intro compound left node scope outcome anchor fits answered
      have meets {answer : Bool} (tested : compoundHolds view
          (attempt view limit remaining) compound node = .ok answer) :=
        compoundHolds_iff induction tells consistent tested
      cases attempted_of_attempt answered with
      | refused tested =>
          rw [Attempt.Sound, Chain.Holds]
          intro holds
          exact Bool.false_ne_true ((meets tested).mpr ⟨holds.1, holds.2.1⟩)
      | leftmost tested =>
          obtain ⟨isElement, ownHolds⟩ := (meets tested).mp rfl
          rw [Attempt.Sound, Chain.Holds, Chain.Links]
          exact ⟨isElement, ownHolds, trivial⟩
      | @related scope tested checked =>
          obtain ⟨isElement, ownHolds⟩ := (meets tested).mp rfl
          have starts := (related_iff tells (fits scope rfl) checked).mp rfl
          rw [Attempt.Sound, Chain.Holds, Chain.Links]
          exact ⟨isElement, ownHolds, starts⟩
      | @unrelated scope tested checked =>
          have starts := related_iff tells (fits scope rfl) checked
          rw [Attempt.Sound, Chain.Holds, Chain.Links]
          intro holds
          exact Bool.false_ne_true (starts.mpr holds.2.2)
      | @searched combinator next further scope choices outcome tested known searched =>
          obtain ⟨isElement, ownHolds⟩ := (meets tested).mp rfl
          have rest : ∀ choice result,
              attempt view limit remaining next further choice scope = .ok result →
              result.Sound forest (Chain.Holds forest (Starts forest scope)
                ⟨next, further, anchor⟩) choice := by
            intro choice result tried
            exact induction fits tried
          have leads :=
            search_sound tells consistent rest (fun _ => inner.plainOnTop) known
              searched
          exact leads.holds isElement ownHolds

/-- An answer to whether a node is an element that a selector matches is what
the meaning of the selector says. -/
theorem accepts_iff {maxDepth : Nat} {selector : Selector} {node : ν}
    {answer : Bool}
    (answered : selector.accepts view maxDepth node = .ok answer) :
    answer = true ↔ Selector.Holds forest selector node :=
  anyChain_iff (attempt_adequate tells consistent inner maxDepth maxDepth)
    answered

end

end Matching

end TreeSelectors
