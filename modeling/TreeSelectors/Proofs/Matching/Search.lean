import TreeSelectors.Matching
import TreeSelectors.Proofs.Matching.Navigation
import TreeSelectors.Proofs.Siblings

/-!
# Searching from right to left

An attempt that fails says more than that its own node does not match: it rules
out every node from which the rest of the chain could only reach nodes that were
tried already.  `Attempt.Sound` states what each outcome rules out, and
`search_sound` shows that a search over the candidates of a combinator passes
these statements on from one compound to the next.
-/

namespace TreeSelectors

namespace Forest

variable {ν : Type} {forest : Forest ν}

theorem above_congr {node other ancestor : ν}
    (sameParent : forest.parent other = forest.parent node) :
    forest.Above ancestor other ↔ forest.Above ancestor node := by
  rw [Above.parent_iff, @Above.parent_iff _ _ _ node, sameParent]

variable [DecidableEq ν]

/-- A node and the siblings in front of it. -/
def Level (forest : Forest ν) (node other : ν) : Prop :=
  other = node ∨ other ∈ forest.before node

/-- The nodes on the levels of a node and of the nodes above it. -/
def Outward (forest : Forest ν) (node other : ν) : Prop :=
  ∃ base, (base = node ∨ forest.Above base node) ∧ forest.Level base other

theorem Level.outward {node other : ν} (level : forest.Level node other) :
    forest.Outward node other :=
  ⟨node, Or.inl rfl, level⟩

theorem Above.outward {node other : ν} (above : forest.Above other node) :
    forest.Outward node other :=
  ⟨other, Or.inr above, Or.inl rfl⟩

theorem Level.parent_eq (consistent : forest.Consistent) {node other : ν}
    (level : forest.Level node other) :
    forest.parent other = forest.parent node := by
  rcases level with rfl | member
  · rfl
  · exact consistent.parent_eq_of_mem_before member

theorem Level.mem_before (consistent : forest.Consistent) {node other left : ν}
    (level : forest.Level node other) (member : left ∈ forest.before other) :
    left ∈ forest.before node := by
  rcases level with rfl | earlier
  · exact member
  · exact consistent.mem_before_trans member earlier

/-- What is above a node on a level outwards is above the node itself. -/
theorem Outward.above (consistent : forest.Consistent) {node other left : ν}
    (outward : forest.Outward node other) (above : forest.Above left other) :
    forest.Above left node := by
  obtain ⟨base, place, level⟩ := outward
  have aboveBase := (above_congr (level.parent_eq consistent)).mp above
  rcases place with rfl | higher
  · exact aboveBase
  · exact aboveBase.trans higher

/-- The parents of nodes outwards are outwards of the parent. -/
theorem Outward.parent (consistent : forest.Consistent) {node other choice left : ν}
    (outward : forest.Outward node other) (link : forest.parent node = some choice)
    (otherLink : forest.parent other = some left) : forest.Outward choice left := by
  obtain ⟨base, place, level⟩ := outward
  have baseLink : forest.parent base = some left := by
    rw [← level.parent_eq consistent]
    exact otherLink
  rcases place with rfl | above
  · rw [link] at baseLink
    cases baseLink
    exact Level.outward (Or.inl rfl)
  · obtain ⟨parent, parentLink, place⟩ := Above.parent_iff.mp above
    rw [link] at parentLink
    cases parentLink
    rcases place with rfl | higher
    · exact Above.outward (.parent baseLink)
    · exact Above.outward (Above.trans (.parent baseLink) higher)

/-- No element is above a node that has children but is no element itself. -/
def PlainOnTop (forest : Forest ν) : Prop :=
  ∀ {child parent ancestor : ν}, forest.parent child = some parent →
    forest.isElement parent = false → forest.Above ancestor parent →
    forest.isElement ancestor = false

omit [DecidableEq ν] in
theorem InnerElements.plainOnTop (inner : forest.InnerElements) :
    forest.PlainOnTop := by
  intro child parent ancestor link plain above
  obtain ⟨upper, upperLink, -⟩ := Above.parent_iff.mp above
  rw [inner link plain] at upperLink
  cases upperLink

/-- If a node has no parent element, no node outwards has one. -/
theorem Outward.no_parentElement (consistent : forest.Consistent)
    (top : forest.PlainOnTop) {node other left : ν}
    (outward : forest.Outward node other)
    (orphan : ∀ parent, forest.isElement parent = true →
      forest.parent node ≠ some parent)
    (element : forest.isElement left = true) :
    forest.parent other ≠ some left := by
  intro link
  obtain ⟨base, place, level⟩ := outward
  have baseLink : forest.parent base = some left := by
    rw [← level.parent_eq consistent]
    exact link
  rcases place with rfl | above
  · exact orphan left element baseLink
  · obtain ⟨parent, nodeLink, place⟩ := Above.parent_iff.mp above
    have plain : forest.isElement parent = false := by
      apply Bool.eq_false_iff.mpr
      intro isElement
      exact orphan parent isElement nodeLink
    have higher : forest.Above left parent := by
      rcases place with rfl | further
      · exact .parent baseLink
      · exact Above.trans (.parent baseLink) further
    exact Bool.false_ne_true ((top nodeLink plain higher).symm.trans element)

end Forest

namespace Matching

variable {ν : Type} [DecidableEq ν] {forest : Forest ν}

/-- What an outcome at a node says about the nodes at which the rest of a chain
matches. -/
def Attempt.Sound (forest : Forest ν) (matching : ν → Prop) (node : ν) :
    Attempt → Prop
  | .matched => matching node
  | .resumeAnywhere => ¬ matching node
  | .resumeAncestor => ∀ other, forest.Level node other → ¬ matching other
  | .hopeless => ∀ other, forest.Outward node other → ¬ matching other

theorem Attempt.Sound.matched_iff {matching : ν → Prop} {node : ν}
    {outcome : Attempt} (sound : outcome.Sound forest matching node) :
    outcome = .matched ↔ matching node := by
  cases outcome with
  | matched => simpa [Attempt.Sound] using sound
  | resumeAnywhere => simpa [Attempt.Sound] using sound
  | resumeAncestor => simpa using sound node (Or.inl rfl)
  | hopeless =>
      simpa using sound node (Forest.Level.outward (Or.inl rfl))

/-- Outcomes other than a match stay sound when fewer nodes match. -/
theorem Attempt.Sound.mono {wider narrower : ν → Prop} {node : ν}
    {outcome : Attempt} (sound : outcome.Sound forest wider node)
    (fewer : ∀ other, narrower other → wider other)
    (kept : wider node → narrower node) :
    outcome.Sound forest narrower node := by
  cases outcome with
  | matched => exact kept sound
  | resumeAnywhere => exact fun holds => sound (fewer node holds)
  | resumeAncestor =>
      exact fun other level holds => sound other level (fewer other holds)
  | hopeless =>
      exact fun other outward holds => sound other outward (fewer other holds)

/-! ## The candidates of a combinator -/

theorem mem_candidates_iff {view : TreeView ν} (tells : view.Tells forest)
    {combinator : Combinator} {node : ν} {choices : List ν}
    (answered : candidates view node combinator = .ok choices) {left : ν} :
    left ∈ choices ↔
      forest.isElement left = true ∧ combinator.Relates forest left node := by
  cases combinator with
  | descendant =>
      obtain ⟨lineage, complete, rfl⟩ := tells.elementAncestors answered
      rw [List.mem_filter, complete.mem_iff, and_comm]
      rfl
  | child =>
      simp only [candidates, bind_eq_ok, pure_eq_ok] at answered
      obtain ⟨parent, known, rfl⟩ := answered
      rw [tells.parentElement known, Option.mem_toList,
        Option.filter_eq_some_iff, and_comm]
      rfl
  | nextSibling =>
      simp only [candidates, bind_eq_ok, pure_eq_ok] at answered
      obtain ⟨elements, known, rfl⟩ := answered
      rw [tells.previousElements known, List.take_one, Option.mem_toList,
        List.head?_reverse]
      refine ⟨fun last => ⟨?_, last⟩, And.right⟩
      exact (List.mem_filter.mp (List.mem_of_getLast? last)).2
  | laterSibling =>
      rw [tells.previousElements answered, List.mem_reverse, List.mem_filter,
        and_comm]
      rfl

/-- Of the elements in front of a node, those after one of them in the order of
the search are on its level. -/
theorem level_of_split (consistent : forest.Consistent) {node choice left : ν}
    {front back : List ν}
    (split : ((forest.before node).filter forest.isElement).reverse =
      front ++ choice :: back)
    (element : forest.isElement left = true)
    (member : left ∈ forest.before node) :
    left ∈ front ∨ forest.Level choice left := by
  have position : left ∈ front ++ choice :: back := by
    rw [← split]
    simp [element, member]
  rcases List.mem_append.mp position with nearer | rest
  · exact Or.inl nearer
  · rcases List.mem_cons.mp rest with rfl | farther
    · exact Or.inr (Or.inl rfl)
    · have inOrder : (forest.before node).filter forest.isElement =
          back.reverse ++ choice :: front.reverse := by
        rw [← List.reverse_reverse (List.filter _ _), split]
        simp
      obtain ⟨start, rest, whole, startElements, restElements⟩ :=
        List.filter_eq_append_iff.mp inOrder
      obtain ⟨skipped, final, parts, nonElements, -, -⟩ :=
        List.filter_eq_cons_iff.mp restElements
      rw [parts, ← List.append_assoc] at whole
      obtain ⟨-, -, -, prior, -⟩ := consistent.of_mem_before whole
      refine Or.inr (Or.inr ?_)
      rw [prior]
      have inStart : left ∈ start.filter forest.isElement := by
        rw [startElements]
        exact List.mem_reverse.mpr farther
      exact List.mem_append_left _ (List.mem_filter.mp inStart).1

/-- The same for the elements in front of a node that is farther out. -/
theorem outward_of_sibling_split (consistent : forest.Consistent)
    {node other choice left : ν} {front back : List ν}
    (split : ((forest.before node).filter forest.isElement).reverse =
      front ++ choice :: back)
    (outward : forest.Outward node other)
    (element : forest.isElement left = true)
    (member : left ∈ forest.before other) :
    left ∈ front ∨ forest.Outward choice left := by
  obtain ⟨base, place, level⟩ := outward
  have onLevel := level.mem_before consistent member
  rcases place with rfl | above
  · exact (level_of_split consistent split element onLevel).imp_right
      Forest.Level.outward
  · have sibling : choice ∈ forest.before node := by
      have inList : choice ∈
          ((forest.before node).filter forest.isElement).reverse := by
        simp [split]
      exact (List.mem_filter.mp (List.mem_reverse.mp inList)).1
    have sameParent := consistent.parent_eq_of_mem_before sibling
    exact Or.inr ⟨base, Or.inr ((Forest.above_congr sameParent).mpr above),
      Or.inr onLevel⟩

/-- Of the elements above a node, those after one of them in the order of the
search are above it. -/
theorem outward_of_split {node choice left : ν} {lineage front back : List ν}
    (complete : forest.Lineage node lineage)
    (split : lineage.filter forest.isElement = front ++ choice :: back)
    (element : forest.isElement left = true)
    (above : forest.Above left node) :
    left ∈ front ∨ forest.Outward choice left := by
  have position : left ∈ front ++ choice :: back := by
    rw [← split, List.mem_filter, complete.mem_iff]
    exact ⟨above, element⟩
  rcases List.mem_append.mp position with nearer | rest
  · exact Or.inl nearer
  · rcases List.mem_cons.mp rest with rfl | farther
    · exact Or.inr (Forest.Level.outward (Or.inl rfl))
    · obtain ⟨start, rest, rfl, -, restElements⟩ :=
        List.filter_eq_append_iff.mp split
      obtain ⟨skipped, final, rfl, -, -, finalElements⟩ :=
        List.filter_eq_cons_iff.mp restElements
      rw [← List.append_assoc] at complete
      have inFinal : left ∈ final.filter forest.isElement := by
        rw [finalElements]
        exact farther
      exact Or.inr (Forest.Above.outward
        (complete.of_append_cons.mem_iff.mp (List.mem_filter.mp inFinal).1))

/-! ## Searches -/

omit [DecidableEq ν] in
/-- A search ends with a candidate that settles it, or without any. -/
theorem search_cases {attempt : ν → Except MatchError Attempt}
    {combinator : Combinator} {choices : List ν} {outcome : Attempt}
    (answered : search attempt combinator choices = .ok outcome) :
    (outcome = exhausted combinator ∧
      ∀ choice ∈ choices, ∃ result, attempt choice = .ok result ∧
        settled? result combinator = none) ∨
    ∃ front choice back result, choices = front ++ choice :: back ∧
      (∀ earlier ∈ front, ∃ passed, attempt earlier = .ok passed ∧
        settled? passed combinator = none) ∧
      attempt choice = .ok result ∧
      settled? result combinator = some outcome := by
  induction choices with
  | nil =>
      simp only [search, pure_eq_ok] at answered
      exact Or.inl ⟨answered.symm, by simp⟩
  | cons first rest induction =>
      simp only [search, bind_eq_ok] at answered
      obtain ⟨result, tried, answered⟩ := answered
      cases settles : settled? result combinator with
      | some settled =>
          simp only [settles, pure_eq_ok] at answered
          subst settled
          exact Or.inr ⟨[], first, rest, result, rfl, by simp, tried, settles⟩
      | none =>
          simp only [settles] at answered
          have passed : ∃ result, attempt first = .ok result ∧
              settled? result combinator = none := ⟨result, tried, settles⟩
          rcases induction answered with ⟨ended, all⟩ |
            ⟨front, choice, back, later, split, earlier, final, settled⟩
          · exact Or.inl ⟨ended, List.forall_mem_cons.mpr ⟨passed, all⟩⟩
          · exact Or.inr ⟨first :: front, choice, back, later, by rw [split]; rfl,
              List.forall_mem_cons.mpr ⟨passed, earlier⟩, final, settled⟩

/-- How an attempt that may go `levels` deeper than its compound has come to an
outcome, with some compounds on the left and a scope. -/
inductive Attempted (view : TreeView ν) (limit levels : Nat) (compound : Compound)
    (node : ν) :
    List (Combinator × Compound) → Option (Scope ν) → Attempt → Prop where
  /-- The compound is not met. -/
  | refused {left : List (Combinator × Compound)} {scope : Option (Scope ν)} :
      compoundHolds view (attempt view limit levels) compound node = .ok false →
      Attempted view limit levels compound node left scope .resumeAnywhere
  | leftmost :
      compoundHolds view (attempt view limit levels) compound node = .ok true →
      Attempted view limit levels compound node [] none .matched
  /-- The leftmost element stands as asked to the element of the scope. -/
  | related {scope : Scope ν} :
      compoundHolds view (attempt view limit levels) compound node = .ok true →
      related view scope.anchor scope.element node = .ok true →
      Attempted view limit levels compound node [] (some scope) .matched
  | unrelated {scope : Scope ν} :
      compoundHolds view (attempt view limit levels) compound node = .ok true →
      related view scope.anchor scope.element node = .ok false →
      Attempted view limit levels compound node [] (some scope) .resumeAnywhere
  /-- A search among the candidates for the next compound. -/
  | searched {combinator : Combinator} {next : Compound}
      {further : List (Combinator × Compound)} {scope : Option (Scope ν)}
      {choices : List ν} {outcome : Attempt} :
      compoundHolds view (attempt view limit levels) compound node = .ok true →
      candidates view node combinator = .ok choices →
      search (fun choice => attempt view limit levels next further choice scope)
        combinator choices = .ok outcome →
      Attempted view limit levels compound node ((combinator, next) :: further) scope
        outcome

theorem attempt_zero_ne_ok {view : TreeView ν} {limit : Nat} {compound : Compound}
    {left : List (Combinator × Compound)} {node : ν} {scope : Option (Scope ν)}
    {outcome : Attempt} : attempt view limit 0 compound left node scope ≠ .ok outcome := by
  simp [attempt]

theorem attempted_of_attempt {view : TreeView ν} {limit levels : Nat}
    {compound : Compound} {left : List (Combinator × Compound)} {node : ν}
    {scope : Option (Scope ν)} {outcome : Attempt}
    (answered : attempt view limit (levels + 1) compound left node scope = .ok outcome) :
    Attempted view limit levels compound node left scope outcome := by
  simp only [attempt, bind_eq_ok] at answered
  obtain ⟨holds, tested, answered⟩ := answered
  cases holds with
  | false =>
      cases answered
      exact .refused tested
  | true =>
      simp only [if_true] at answered
      split at answered
      · cases answered
        exact .leftmost tested
      · rw [bind_eq_ok] at answered
        obtain ⟨relates, checked, answered⟩ := answered
        cases relates with
        | true =>
            cases answered
            exact .related tested checked
        | false =>
            cases answered
            exact .unrelated tested checked
      · rw [bind_eq_ok] at answered
        obtain ⟨choices, known, searched⟩ := answered
        exact .searched tested known searched

/-- Whatever has matched meets its compound. -/
theorem Attempted.holds {view : TreeView ν} {limit levels : Nat} {compound : Compound}
    {left : List (Combinator × Compound)} {node : ν} {scope : Option (Scope ν)}
    (attempted : Attempted view limit levels compound node left scope .matched) :
    compoundHolds view (attempt view limit levels) compound node = .ok true := by
  cases attempted with
  | leftmost tested => exact tested
  | related tested => exact tested
  | searched tested => exact tested

/-- Whether a combinator leads from a node to one at which the rest of a chain
matches. -/
def Leads (forest : Forest ν) (matching : ν → Prop) (combinator : Combinator)
    (node : ν) : Prop :=
  ∃ left, forest.isElement left = true ∧
    combinator.Relates forest left node ∧ matching left

section

variable {view : TreeView ν} (tells : view.Tells forest)
  (consistent : forest.Consistent) {matching : ν → Prop}
  {attempt : ν → Except MatchError Attempt}
  (sound : ∀ choice result, attempt choice = .ok result →
    result.Sound forest matching choice)

include sound in
theorem not_matching_of_passed {choice : ν} {combinator : Combinator}
    (passed : ∃ result, attempt choice = .ok result ∧
      settled? result combinator = none) : ¬ matching choice := by
  obtain ⟨result, tried, unsettled⟩ := passed
  rw [← (sound choice result tried).matched_iff]
  rintro rfl
  simp [settled?] at unsettled

include tells consistent sound

theorem search_descendant_sound {node : ν} {choices : List ν} {outcome : Attempt}
    (known : candidates view node .descendant = .ok choices)
    (answered : search attempt .descendant choices = .ok outcome) :
    outcome.Sound forest (Leads forest matching .descendant) node := by
  have isChoice {left : ν} := @mem_candidates_iff _ _ _ _ tells _ _ _ known left
  rcases search_cases answered with ⟨rfl, passed⟩ |
    ⟨front, choice, back, result, rfl, passed, tried, settles⟩
  · intro other outward leads
    obtain ⟨left, element, above, holds⟩ := leads
    have member := isChoice.mpr ⟨element, outward.above consistent above⟩
    exact not_matching_of_passed sound (passed left member) holds
  · have verdict := sound choice result tried
    cases result with
    | matched =>
        cases settles
        obtain ⟨element, above⟩ :=
          isChoice.mp (List.mem_append_right front List.mem_cons_self)
        exact ⟨choice, element, above, verdict⟩
    | resumeAnywhere => cases settles
    | resumeAncestor => cases settles
    | hopeless =>
        cases settles
        intro other outward leads
        obtain ⟨left, element, above, holds⟩ := leads
        obtain ⟨lineage, complete, split⟩ := tells.elementAncestors known
        rcases outward_of_split complete split.symm element
          (outward.above consistent above) with nearer | beyond
        · exact not_matching_of_passed sound (passed left nearer) holds
        · exact verdict left beyond holds

private theorem search_child_sound (top : forest.PlainOnTop)
    {node : ν} {choices : List ν} {outcome : Attempt}
    (known : candidates view node .child = .ok choices)
    (answered : search attempt .child choices = .ok outcome) :
    outcome.Sound forest (Leads forest matching .child) node := by
  have isChoice {left : ν} := @mem_candidates_iff _ _ _ _ tells _ _ _ known left
  rcases search_cases answered with ⟨rfl, passed⟩ |
    ⟨front, choice, back, result, rfl, passed, tried, settles⟩
  · have orphan : ∀ parent, forest.isElement parent = true →
        forest.parent node ≠ some parent := by
      intro parent element link
      obtain ⟨result, -, unsettled⟩ := passed parent (isChoice.mpr ⟨element, link⟩)
      cases result <;> cases unsettled
    intro other outward leads
    obtain ⟨left, element, link, -⟩ := leads
    exact outward.no_parentElement consistent top orphan element link
  · obtain ⟨element, nodeLink⟩ :=
      isChoice.mp (List.mem_append_right front List.mem_cons_self)
    have nodeLink : forest.parent node = some choice := nodeLink
    have verdict := sound choice result tried
    have onLevel (failed : ¬ matching choice) : ∀ other,
        forest.Level node other → ¬ Leads forest matching .child other := by
      intro other level leads
      obtain ⟨left, -, link, holds⟩ := leads
      have sameParent : some left = some choice := by
        rw [← nodeLink, ← level.parent_eq consistent]
        exact Eq.symm link
      cases sameParent
      exact failed holds
    cases result with
    | matched =>
        cases settles
        exact ⟨choice, element, nodeLink, verdict⟩
    | resumeAnywhere =>
        cases settles
        exact onLevel verdict
    | resumeAncestor =>
        cases settles
        exact onLevel (verdict choice (Or.inl rfl))
    | hopeless =>
        cases settles
        intro other outward leads
        obtain ⟨left, -, link, holds⟩ := leads
        exact verdict left (outward.parent consistent nodeLink link) holds

private theorem search_nextSibling_sound {node : ν} {choices : List ν}
    {outcome : Attempt}
    (known : candidates view node .nextSibling = .ok choices)
    (answered : search attempt .nextSibling choices = .ok outcome) :
    outcome.Sound forest (Leads forest matching .nextSibling) node := by
  have isChoice {left : ν} := @mem_candidates_iff _ _ _ _ tells _ _ _ known left
  have earlier {left other : ν}
      (next : Combinator.nextSibling.Relates forest left other) :
      left ∈ forest.before other :=
    (List.mem_filter.mp (List.mem_of_getLast? next)).1
  rcases search_cases answered with ⟨rfl, passed⟩ |
    ⟨front, choice, back, result, rfl, passed, tried, settles⟩
  · -- Without an element in front of the node, there is none on its level.
    intro other level leads
    obtain ⟨left, element, next, -⟩ := leads
    have member := level.mem_before consistent (earlier next)
    have inFront : left ∈ (forest.before node).filter forest.isElement :=
      List.mem_filter.mpr ⟨member, element⟩
    have nonempty := List.getLast?_isSome.mpr (List.ne_nil_of_mem inFront)
    obtain ⟨nearest, last⟩ := Option.isSome_iff_exists.mp nonempty
    have isElement := (List.mem_filter.mp (List.mem_of_getLast? last)).2
    obtain ⟨result, -, unsettled⟩ :=
      passed nearest (isChoice.mpr ⟨isElement, last⟩)
    cases result <;> cases unsettled
  · obtain ⟨element, next⟩ :=
      isChoice.mp (List.mem_append_right front List.mem_cons_self)
    have verdict := sound choice result tried
    have nearest : ((forest.before node).filter forest.isElement).reverse.head? =
        some choice := by
      rw [List.head?_reverse]
      exact next
    obtain ⟨others, reversed⟩ := List.head?_eq_some_iff.mp nearest
    have split : ((forest.before node).filter forest.isElement).reverse =
        [] ++ choice :: others := reversed
    cases result with
    | matched =>
        cases settles
        exact ⟨choice, element, next, verdict⟩
    | resumeAnywhere =>
        cases settles
        intro leads
        obtain ⟨left, -, next', holds⟩ := leads
        have same : some left = some choice := next'.symm.trans next
        cases same
        exact verdict holds
    | resumeAncestor =>
        cases settles
        intro other level leads
        obtain ⟨left, element, next, holds⟩ := leads
        rcases level_of_split consistent split element
          (level.mem_before consistent (earlier next)) with nearer | beyond
        · cases nearer
        · exact verdict left beyond holds
    | hopeless =>
        cases settles
        intro other outward leads
        obtain ⟨left, element, next, holds⟩ := leads
        rcases outward_of_sibling_split consistent split outward element
          (earlier next) with nearer | beyond
        · cases nearer
        · exact verdict left beyond holds

private theorem search_laterSibling_sound {node : ν} {choices : List ν}
    {outcome : Attempt}
    (known : candidates view node .laterSibling = .ok choices)
    (answered : search attempt .laterSibling choices = .ok outcome) :
    outcome.Sound forest (Leads forest matching .laterSibling) node := by
  have isChoice {left : ν} := @mem_candidates_iff _ _ _ _ tells _ _ _ known left
  rcases search_cases answered with ⟨rfl, passed⟩ |
    ⟨front, choice, back, result, rfl, passed, tried, settles⟩
  · intro other level leads
    obtain ⟨left, element, earlier, holds⟩ := leads
    have member := isChoice.mpr ⟨element, level.mem_before consistent earlier⟩
    exact not_matching_of_passed sound (passed left member) holds
  · have verdict := sound choice result tried
    have split := (tells.previousElements known).symm
    cases result with
    | matched =>
        cases settles
        obtain ⟨element, earlier⟩ :=
          isChoice.mp (List.mem_append_right front List.mem_cons_self)
        exact ⟨choice, element, earlier, verdict⟩
    | resumeAnywhere => cases settles
    | resumeAncestor =>
        cases settles
        intro other level leads
        obtain ⟨left, element, earlier, holds⟩ := leads
        rcases level_of_split consistent split element
          (level.mem_before consistent earlier) with nearer | beyond
        · exact not_matching_of_passed sound (passed left nearer) holds
        · exact verdict left beyond holds
    | hopeless =>
        cases settles
        intro other outward leads
        obtain ⟨left, element, earlier, holds⟩ := leads
        rcases outward_of_sibling_split consistent split outward element
          earlier with nearer | beyond
        · exact not_matching_of_passed sound (passed left nearer) holds
        · exact verdict left beyond holds

/-- A search whose attempts are sound for the rest of a chain is sound for what
the combinator leads to. -/
theorem search_sound {combinator : Combinator} {node : ν} {choices : List ν}
    {outcome : Attempt} (top : combinator = .child → forest.PlainOnTop)
    (known : candidates view node combinator = .ok choices)
    (answered : search attempt combinator choices = .ok outcome) :
    outcome.Sound forest (Leads forest matching combinator) node := by
  cases combinator with
  | descendant =>
      exact search_descendant_sound tells consistent sound known answered
  | child => exact search_child_sound tells consistent sound (top rfl) known answered
  | nextSibling =>
      exact search_nextSibling_sound tells consistent sound known answered
  | laterSibling =>
      exact search_laterSibling_sound tells consistent sound known answered

end

end Matching

end TreeSelectors
