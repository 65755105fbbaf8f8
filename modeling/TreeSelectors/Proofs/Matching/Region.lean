import TreeSelectors.Proofs.Matching.Search

/-!
# The region of the relational pseudo-class

Going over a chain from its leftmost element to its subject, every step leads to an
element below the one before or to a sibling after it.  The region that `:has()` searches
holds every element at which the chain may start, and no step leads out of it.  So it
holds every subject that the chain can have, also if nodes that are no elements stand
between the elements.
-/

namespace TreeSelectors

variable {ν : Type} [DecidableEq ν] {view : TreeView ν} {forest : Forest ν}

/-- Whether combinators, given from right to left, lead over elements from one that meets
`start` to a node. -/
def Chain.Route (forest : Forest ν) (start : ν → Prop) : List Combinator → ν → Prop
  | [], node => start node
  | combinator :: further, node =>
      ∃ left, forest.isElement left = true ∧ combinator.Relates forest left node ∧
        Chain.Route forest start further left

/-- Elements that are assigned to compounds are a way over the combinators. -/
theorem Chain.Links.route {start : ν → Prop} {left : List (Combinator × Compound)}
    {node : ν} (links : Chain.Links forest start left node) :
    Chain.Route forest start (left.map Prod.fst) node := by
  induction left generalizing node with
  | nil =>
      simp only [Chain.Links] at links
      exact links
  | cons pair further induction =>
      obtain ⟨combinator, compound⟩ := pair
      simp only [Chain.Links] at links
      obtain ⟨next, isElement, relates, -, rest⟩ := links
      exact ⟨next, isElement, relates, induction rest⟩

/-- What a combinator leads to is below the element on its left or behind it. -/
theorem Combinator.Relates.above_or_before {combinator : Combinator} {left right : ν}
    (relates : combinator.Relates forest left right) :
    forest.Above left right ∨ left ∈ forest.before right := by
  cases combinator with
  | descendant => exact Or.inl relates
  | child => exact Or.inl (.parent relates)
  | nextSibling => exact Or.inr (List.mem_filter.mp (List.mem_of_getLast? relates)).1
  | laterSibling => exact Or.inr relates

/-- No combinator leads out from below a node. -/
theorem Combinator.Relates.above (consistent : forest.Consistent)
    {combinator : Combinator} {node left right : ν}
    (relates : combinator.Relates forest left right) (above : forest.Above node left) :
    forest.Above node right := by
  rcases relates.above_or_before with below | earlier
  · exact above.trans below
  · exact (Forest.above_congr (consistent.parent_eq_of_mem_before earlier)).mp above

namespace Forest

/-- Where a subject may stand to a node if the leftmost element of its chain stands to the
node as a combinator says, and if the leftmost element is the subject itself in the case of
a single compound. -/
def InRegion (forest : Forest ν) (node : ν) :
    (anchor : Combinator) → (single : Bool) → ν → Prop
  | .descendant, _, element | .child, false, element => forest.Above node element
  | .child, true, element => forest.parent element = some node
  | .nextSibling, true, element =>
      ((forest.after node).filter forest.isElement).head? = some element
  | .laterSibling, true, element => element ∈ forest.after node
  | .nextSibling, false, element | .laterSibling, false, element =>
      ∃ sibling ∈ (forest.after node).filter forest.isElement,
        element = sibling ∨ forest.Above sibling element

end Forest

namespace Matching

section

variable (tells : view.Tells forest) (consistent : forest.Consistent)
include tells consistent

theorem mem_descendantElements_iff {node other : ν} {elements : List ν}
    (answered : view.descendantElements node = .ok elements) :
    other ∈ elements ↔
      forest.Above node other ∧ forest.isElement other = true := by
  simp only [TreeView.descendantElements, bind_eq_ok, liftM_eq_ok] at answered
  obtain ⟨children, known, found⟩ := answered
  have reached : forest.Reached (children.map (view.longestPath, ·)) other ↔
      forest.Above node other := by
    have unfolded : forest.Reached
        (children.map (view.longestPath, ·) ++ []) other ↔ _ :=
      tells.reached_unfolded_iff consistent known
    simpa [Forest.Reached] using unfolded
  rw [tells.mem_walk_iff consistent found, reached, and_comm]
  refine and_congr_right fun above => ?_
  obtain ⟨answer, tested⟩ :=
    tells.walk_tested consistent found (reached.mpr above)
  rw [tested, tells.isElement tested]
  simp

private theorem mem_withDescendants_iff {siblings found : List ν} {other : ν}
    (answered : withDescendants view siblings = .ok found) :
    other ∈ found ↔ ∃ sibling ∈ siblings, other = sibling ∨
      forest.Above sibling other ∧ forest.isElement other = true := by
  unfold withDescendants at answered
  induction siblings generalizing found with
  | nil =>
      simp only [TreeView.gather, pure_eq_ok] at answered
      simp [← answered]
  | cons sibling rest induction =>
      simp only [TreeView.gather, bind_eq_ok, pure_eq_ok] at answered
      obtain ⟨_, ⟨elements, first, rfl⟩, others, collected, rfl⟩ := answered
      simp only [List.mem_append, List.mem_cons, induction collected,
        mem_descendantElements_iff tells consistent first, exists_eq_or_imp]

/-- The siblings behind a node and what is below them. -/
theorem mem_siblingRegion_iff {node element : ν} {siblings found : List ν}
    (known : view.nextElements node = .ok siblings)
    (collected : withDescendants view siblings = .ok found) :
    element ∈ found ↔ forest.isElement element = true ∧
      ∃ sibling ∈ (forest.after node).filter forest.isElement,
        element = sibling ∨ forest.Above sibling element := by
  rw [mem_withDescendants_iff tells consistent collected, tells.nextElements known]
  constructor
  · rintro ⟨sibling, member, rfl | ⟨above, isElement⟩⟩
    · exact ⟨(List.mem_filter.mp member).2, element, member, Or.inl rfl⟩
    · exact ⟨isElement, sibling, member, Or.inr above⟩
  · rintro ⟨isElement, sibling, member, place⟩
    exact ⟨sibling, member, place.imp_right fun above => ⟨above, isElement⟩⟩

end

/-- An element right after another one is the first of the elements after it. -/
theorem nextElement_of_relates (consistent : forest.Consistent)
    {node element : ν} (isElement : forest.isElement element = true)
    (relates : Combinator.nextSibling.Relates forest node element) :
    ((forest.after node).filter forest.isElement).head? = some element := by
  obtain ⟨start, split⟩ := List.getLast?_eq_some_iff.mp relates
  obtain ⟨front, rest, whole, -, restElements⟩ :=
    List.filter_eq_append_iff.mp split
  obtain ⟨skipped, final, parts, -, -, finalElements⟩ :=
    List.filter_eq_cons_iff.mp restElements
  rw [parts, ← List.append_assoc] at whole
  obtain ⟨-, -, -, -, behind⟩ := consistent.of_mem_before whole
  rw [behind, List.filter_append, finalElements, List.nil_append,
    List.filter_cons_of_pos isElement]
  rfl

/-- An element behind a node is one of the siblings in its region. -/
theorem mem_siblings_of_before (consistent : forest.Consistent) {node element : ν}
    (isElement : forest.isElement element = true)
    (later : node ∈ forest.before element) :
    ∃ sibling ∈ (forest.after node).filter forest.isElement,
      element = sibling ∨ forest.Above sibling element :=
  ⟨element, List.mem_filter.mpr ⟨consistent.mem_after_iff.mpr later, isElement⟩,
    Or.inl rfl⟩

end Matching

namespace Forest.InRegion

open Matching

variable (consistent : forest.Consistent) {anchor combinator : Combinator}
  {node left element : ν}
include consistent

/-- The leftmost element itself is in the region. -/
theorem of_relates (single : Bool) (isElement : forest.isElement element = true)
    (relates : anchor.Relates forest node element) :
    forest.InRegion node anchor single element := by
  cases anchor with
  | descendant => exact relates
  | child =>
      cases single with
      | true => exact relates
      | false => exact .parent relates
  | nextSibling =>
      cases single with
      | true => exact nextElement_of_relates consistent isElement relates
      | false =>
          exact mem_siblings_of_before consistent isElement
            (List.mem_filter.mp (List.mem_of_getLast? relates)).1
  | laterSibling =>
      cases single with
      | true => exact consistent.mem_after_iff.mpr relates
      | false => exact mem_siblings_of_before consistent isElement relates

/-- A step to the right does not lead out of the region. -/
theorem next (isElement : forest.isElement element = true)
    (relates : combinator.Relates forest left element)
    (inside : forest.InRegion node anchor false left) :
    forest.InRegion node anchor false element := by
  cases anchor with
  | descendant | child => exact relates.above consistent inside
  | nextSibling | laterSibling =>
      obtain ⟨sibling, member, place⟩ := inside
      rcases place with rfl | above
      · rcases relates.above_or_before with below | earlier
        · exact ⟨left, member, Or.inr below⟩
        · have later := consistent.mem_after_iff.mp (List.mem_filter.mp member).1
          exact mem_siblings_of_before consistent isElement
            (consistent.mem_before_trans later earlier)
      · exact ⟨sibling, member, Or.inr (relates.above consistent above)⟩

/-- So every way that starts as the anchor says stays in the region. -/
theorem of_route {combinators : List Combinator}
    (isElement : forest.isElement element = true)
    (route : Chain.Route forest (anchor.Relates forest node) combinators element) :
    forest.InRegion node anchor combinators.isEmpty element := by
  have stays (combinators : List Combinator) (element : ν)
      (isElement : forest.isElement element = true)
      (route : Chain.Route forest (anchor.Relates forest node) combinators element) :
      forest.InRegion node anchor false element := by
    induction combinators generalizing element with
    | nil => exact of_relates consistent false isElement route
    | cons combinator further induction =>
        obtain ⟨left, isLeft, relates, rest⟩ := route
        exact next consistent isElement relates (induction left isLeft rest)
  cases combinators with
  | nil => exact of_relates consistent true isElement route
  | cons combinator further => exact stays _ element isElement route

end Forest.InRegion

namespace Matching

section

variable (tells : view.Tells forest) (consistent : forest.Consistent)
include tells consistent

/-- The region that is searched holds the elements that are in it. -/
theorem mem_region_iff {anchor : Combinator} {single : Bool} {node element : ν}
    {found : List ν} (answered : region view anchor single node = .ok found) :
    element ∈ found ↔
      forest.isElement element = true ∧ forest.InRegion node anchor single element := by
  cases anchor with
  | descendant =>
      rw [region.eq_1] at answered
      rw [mem_descendantElements_iff tells consistent answered, and_comm]
      rfl
  | child =>
      cases single with
      | true =>
          simp only [region] at answered
          rw [tells.childElements answered, List.mem_filter, consistent.mem_children_iff,
            and_comm]
          rfl
      | false =>
          simp only [region] at answered
          rw [mem_descendantElements_iff tells consistent answered, and_comm]
          rfl
  | nextSibling =>
      cases single with
      | true =>
          simp only [region, bind_eq_ok, pure_eq_ok] at answered
          obtain ⟨elements, known, rfl⟩ := answered
          rw [tells.nextElements known, List.take_one, Option.mem_toList]
          refine ⟨fun first => ⟨?_, first⟩, And.right⟩
          exact (List.mem_filter.mp (List.mem_of_head? first)).2
      | false =>
          simp only [region, bind_eq_ok] at answered
          obtain ⟨elements, known, collected⟩ := answered
          exact mem_siblingRegion_iff tells consistent known collected
  | laterSibling =>
      cases single with
      | true =>
          simp only [region] at answered
          rw [tells.nextElements answered, List.mem_filter, and_comm]
          rfl
      | false =>
          simp only [region, bind_eq_ok] at answered
          obtain ⟨elements, known, collected⟩ := answered
          exact mem_siblingRegion_iff tells consistent known collected

/-- The region of a combinator holds every subject of a chain whose leftmost
element stands to a node as the combinator says. -/
theorem mem_region {anchor : Combinator} {node element : ν} {subject : Compound}
    {left : List (Combinator × Compound)} {own : Option Combinator}
    {found : List ν}
    (answered : region view anchor left.isEmpty node = .ok found)
    (holds : Chain.Holds forest (anchor.Relates forest node)
      ⟨subject, left, own⟩ element) : element ∈ found := by
  simp only [Chain.Holds] at holds
  obtain ⟨isElement, -, links⟩ := holds
  have inside := Forest.InRegion.of_route consistent isElement links.route
  rw [List.isEmpty_map] at inside
  exact (mem_region_iff tells consistent answered).mpr ⟨isElement, inside⟩

end

end Matching

end TreeSelectors
