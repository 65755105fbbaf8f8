import TreeSelectors.Proofs.Matching.Adequacy
import TreeSelectors.Proofs.Matching.Exhaustive

/-!
# The region is sufficient

Whatever an attempt in a scope matches can be reached from the element of the scope over
the combinators of the chain.  So `:has()` could try all elements of a forest and would
not find more than in its region.
-/

namespace TreeSelectors

namespace Matching

variable {ν : Type} [DecidableEq ν] {view : TreeView ν} {forest : Forest ν}

/-- What `:has()` would answer if it tried some given nodes for every chain. -/
def hasAmong (attempt : ChainMatcher ν) (choices : List ν) (node : ν)
    (selector : Selector) : Except MatchError Bool :=
  selector.anyM fun chain =>
    anyCandidate attempt chain ⟨chain.anchor.getD .descendant, node⟩ choices

private theorem isElement_of_compoundHolds (tells : view.Tells forest)
    {attempt : ChainMatcher ν} {compound : Compound} {node : ν}
    (answered : compoundHolds view attempt compound node = .ok true) :
    forest.isElement node = true := by
  simp only [compoundHolds, bind_eq_ok, liftM_eq_ok] at answered
  obtain ⟨tag, known, answered⟩ := answered
  rw [Forest.isElement, ← tells.tagName known]
  cases tag with
  | none => cases answered
  | some tag => rfl

/-- What an attempt in a scope matches is an element to which the combinators lead, from
an element that stands to the one of the scope as the anchor says. -/
theorem route_of_matched (tells : view.Tells forest) {limit remaining : Nat}
    {compound : Compound} {left : List (Combinator × Compound)} {node : ν}
    {scope : Scope ν} (fits : forest.isElement scope.element = true)
    (answered : attempt view limit remaining compound left node (some scope) =
      .ok .matched) :
    forest.isElement node = true ∧
      Chain.Route forest (scope.anchor.Relates forest scope.element)
        (left.map Prod.fst) node := by
  induction remaining generalizing compound left node with
  | zero => exact absurd answered attempt_zero_ne_ok
  | succ remaining induction =>
      have attempted := attempted_of_attempt answered
      refine ⟨isElement_of_compoundHolds tells attempted.holds, ?_⟩
      cases attempted with
      | related tested relates => exact (related_iff tells fits relates).mp rfl
      | searched tested known searched =>
          obtain ⟨choice, member, matched⟩ := exists_matched_of_search searched
          obtain ⟨isChoice, relates⟩ := (mem_candidates_iff tells known).mp member
          exact ⟨choice, isChoice, relates, (induction matched).2⟩

/-- No attempt matches outside of the region. -/
theorem mem_region_of_matched (tells : view.Tells forest)
    (consistent : forest.Consistent) {limit remaining : Nat} {chain : Chain}
    {anchor : Combinator} {node element : ν} {found : List ν}
    (isElement : forest.isElement node = true)
    (answered : region view anchor chain.left.isEmpty node = .ok found)
    (matched : attempt view limit remaining chain.subject chain.left element
      (some ⟨anchor, node⟩) = .ok .matched) : element ∈ found := by
  obtain ⟨isMatched, route⟩ := route_of_matched tells isElement matched
  have inside := Forest.InRegion.of_route consistent isMatched route
  rw [List.isEmpty_map] at inside
  exact (mem_region_iff tells consistent answered).mpr ⟨isMatched, inside⟩

omit [DecidableEq ν] in
/-- Nodes among which are all that can match need not be tried one by one. -/
theorem anyCandidate_agrees {attempt : ChainMatcher ν} {chain : Chain} {scope : Scope ν}
    {fewer more : List ν} (among : ∀ choice ∈ fewer, choice ∈ more)
    (enough : ∀ choice ∈ more,
      attempt chain.subject chain.left choice scope = .ok .matched → choice ∈ fewer) :
    Agrees (anyCandidate attempt chain scope fewer)
      (anyCandidate attempt chain scope more) := by
  rw [anyCandidate_eq_anyM, anyCandidate_eq_anyM]
  refine .anyM (fun choice member _ => ⟨choice, among choice member, .refl _⟩) ?_
  intro choice member passes
  exact ⟨choice, enough choice member (isMatched_eq_ok_true_iff.mp passes), .refl _⟩

omit [DecidableEq ν] in
private theorem hasAmong_gives {bad : MatchError → Prop} {inside : ν → Prop}
    {levels : Nat}
    {attempt : ChainMatcher ν} (serves : Serves bad inside levels attempt)
    {choices : List ν} (known : ∀ choice ∈ choices, inside choice) {node : ν}
    {selector : Selector} (fits : Selector.depth selector ≤ levels) :
    Gives bad (fun _ => True) (hasAmong attempt choices node selector) := by
  unfold hasAmong
  induction selector with
  | nil => exact .pure trivial
  | cons chain rest induction =>
      rw [Selector.depth, Nat.max_le] at fits
      rw [List.anyM_cons]
      refine .bind (anyCandidate_gives serves fits.1 _ known) fun answer _ => ?_
      cases answer with
      | true => exact .pure trivial
      | false => exact induction fits.2

/-- On a finite forest, where also nodes that are no elements may have children, `:has()`
on an element finds its region, and no attempt matches elsewhere.  So trying all elements
of the forest never answers differently, and it gives the same answer as trying the region
if matching may go as deep as the selector is. -/
theorem has_region_suffices {nodes : Finset ν} (presents : view.Presents forest nodes)
    {node : ν} (inside : node ∈ nodes) (isElement : forest.isElement node = true)
    (selector : Selector) :
    (∀ chain : Chain, ∃ found,
        region view (chain.anchor.getD .descendant) chain.left.isEmpty node = .ok found ∧
          ∀ element ∈ nodes, forest.isElement element = true → element ∉ found →
            ∀ limit remaining,
              attempt view limit remaining chain.subject chain.left element
                (some ⟨chain.anchor.getD .descendant, node⟩) ≠ .ok .matched) ∧
      ∀ elements : List ν,
        (∀ element, element ∈ elements ↔
          element ∈ nodes ∧ forest.isElement element = true) →
        ∀ limit remaining,
          (∀ answer other,
            has view (attempt view limit remaining) node selector = .ok answer →
            hasAmong (attempt view limit remaining) elements node selector = .ok other →
            answer = other) ∧
          (Selector.depth selector ≤ remaining → ∃ answer,
            has view (attempt view limit remaining) node selector = .ok answer ∧
            hasAmong (attempt view limit remaining) elements node selector =
              .ok answer) := by
  have tells := presents.tells
  have consistent := presents.consistent
  have regions (chain : Chain) := (region_gives presents.safe inside
    (chain.anchor.getD .descendant) chain.left.isEmpty).exists_answer
  refine ⟨fun chain => ?_, fun elements all limit remaining => ?_⟩
  · obtain ⟨found, answered, -⟩ := regions chain
    exact ⟨found, answered, fun element _ _ outside limit remaining matched =>
      outside (mem_region_of_matched tells consistent isElement answered matched)⟩
  · have agrees : Agrees (has view (attempt view limit remaining) node selector)
        (hasAmong (attempt view limit remaining) elements node selector) := by
      rw [has_eq_anyM, hasAmong]
      have agree (chain : Chain) : Agrees (do
          anyCandidate (attempt view limit remaining) chain
            ⟨chain.anchor.getD .descendant, node⟩
            (← region view (chain.anchor.getD .descendant) chain.left.isEmpty node))
          (anyCandidate (attempt view limit remaining) chain
            ⟨chain.anchor.getD .descendant, node⟩ elements) := by
        obtain ⟨found, answered, among⟩ := regions chain
        rw [answered]
        refine anyCandidate_agrees (fun element member => ?_) fun element _ matched =>
          mem_region_of_matched tells consistent isElement answered matched
        exact (all element).mpr ⟨among element member,
          ((mem_region_iff tells consistent answered).mp member).1⟩
      exact .anyM (fun chain member _ => ⟨chain, member, agree chain⟩)
        fun chain member _ => ⟨chain, member, agree chain⟩
    refine ⟨agrees, fun fits => ?_⟩
    have serves := attempt_serves presents.safe limit remaining
    obtain ⟨answer, answered, -⟩ :=
      (has_gives serves inside presents.safe fits).exists_answer
    obtain ⟨other, answeredOther, -⟩ := (hasAmong_gives serves
      (fun element member => ((all element).mp member).1) fits).exists_answer
    exact ⟨answer, answered, agrees _ _ answered answeredOther ▸ answeredOther⟩

/-- In a chain of nodes that leads over one without a tag, `:has(b > c)` on the second
node finds the last one, below the node without a tag. -/
theorem has_region_suffices_gap :
    gapView.Presents gapForest Finset.univ ∧
      gapForest.isElement 1 = true ∧
      has gapView (attempt gapView 2 2) 1
        [⟨[.type "c"], [(.child, [.type "b"])], none⟩] = .ok true ∧
      hasAmong (attempt gapView 2 2) [0, 1, 3, 4] 1
        [⟨[.type "c"], [(.child, [.type "b"])], none⟩] = .ok true := by
  have inside : (1 : Fin 5) ∈ (Finset.univ : Finset (Fin 5)) := Finset.mem_univ 1
  have isElement : gapForest.isElement 1 = true := by decide
  have all : ∀ element : Fin 5, element ∈ [0, 1, 3, 4] ↔
      element ∈ Finset.univ ∧ gapForest.isElement element = true := by
    decide
  have fits : Selector.depth [⟨[.type "c"], [(.child, [.type "b"])], none⟩] ≤ 2 := by
    decide
  have everywhere : hasAmong (attempt gapView 2 2) [0, 1, 3, 4] 1
      [⟨[.type "c"], [(.child, [.type "b"])], none⟩] = .ok true := by
    decide
  obtain ⟨-, enough⟩ := has_region_suffices presents_gapView inside isElement
    [⟨[.type "c"], [(.child, [.type "b"])], none⟩]
  obtain ⟨answer, answered, again⟩ := (enough [0, 1, 3, 4] all 2 2).2 fits
  obtain rfl := Except.ok.inj (again.symm.trans everywhere)
  exact ⟨presents_gapView, isElement, answered, everywhere⟩

end Matching

end TreeSelectors
