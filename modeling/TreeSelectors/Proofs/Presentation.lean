import Mathlib.Data.Finset.Card
import TreeSelectors.Proofs.Matching.Depth
import TreeSelectors.Proofs.Matching.Region

/-!
# Views of finite forests

A view presents a finite forest if it answers every question about the nodes of
the forest, and its parents and children agree.  Walks from node to node then
arrive, so that matching is answered as soon as it may go as deep as the selector
is.
-/

namespace TreeSelectors

variable {ν : Type}

/-- Whether walks may go down far enough from each node on their stack. -/
def Forest.Prepared (forest : Forest ν) (nodes : Finset ν)
    (stack : List (Nat × ν)) : Prop :=
  ∀ entry ∈ stack, entry.2 ∈ nodes ∧
    ∃ lineage, forest.Lineage entry.2 lineage ∧
      nodes.card ≤ entry.1 + lineage.length

variable [DecidableEq ν]

/-- No question about a node fails. -/
structure TreeView.Answers (view : TreeView ν) (node : ν) : Prop where
  tagName : ∃ tag, view.tagName node = .ok tag
  parent : ∃ parent, view.parent node = .ok parent
  children : ∃ children, view.children node = .ok children
  text : ∃ text, view.text node = .ok text
  attributeValue (name : String) : ∃ value, view.attributeValue node name = .ok value
  id : ∃ value, view.id node = .ok value
  hasClass (name : String) : ∃ answer, view.hasClass node name = .ok answer
  previousSiblings : ∃ siblings, view.previousSiblings node = .ok siblings
  nextSiblings : ∃ siblings, view.nextSiblings node = .ok siblings

/-- A view answers all questions about the nodes of a finite forest, whose links
stay among them. -/
structure TreeView.Presents (view : TreeView ν) (forest : Forest ν)
    (nodes : Finset ν) : Prop where
  tells : view.Tells forest
  answers {node : ν} : node ∈ nodes → view.Answers node
  consistent : forest.Consistent
  acyclic : forest.Acyclic
  links {child parent : ν} :
    forest.parent child = some parent → child ∈ nodes ∧ parent ∈ nodes
  longestPath : nodes.card ≤ view.longestPath

namespace TreeView.Presents

variable {view : TreeView ν} {forest : Forest ν} {nodes : Finset ν} {node : ν}
  (presents : view.Presents forest nodes)

include presents

theorem mem_of_above {ancestor : ν} (above : forest.Above ancestor node) :
    ancestor ∈ nodes ∧ node ∈ nodes := by
  induction above with
  | parent link => exact (presents.links link).symm
  | further link _ induction => exact ⟨induction.1, (presents.links link).1⟩

private theorem mem_of_mem_before {sibling : ν} (member : sibling ∈ forest.before node) :
    sibling ∈ nodes := by
  obtain ⟨front, back, split⟩ := List.append_of_mem member
  obtain ⟨parent, -, link, -⟩ := presents.consistent.of_mem_before split
  exact (presents.links link).1

private theorem mem_of_mem_after {sibling : ν} (member : sibling ∈ forest.after node) :
    sibling ∈ nodes := by
  have earlier := presents.consistent.mem_after_iff.mp member
  obtain ⟨front, back, split⟩ := List.append_of_mem earlier
  obtain ⟨parent, link, -⟩ := presents.consistent.of_mem_before split
  exact (presents.links link).1

/-! ## The answers -/

theorem tagName_eq (inside : node ∈ nodes) :
    view.tagName node = .ok (forest.tag node) := by
  obtain ⟨tag, answered⟩ := (presents.answers inside).tagName
  rw [answered, presents.tells.tagName answered]

theorem parent_eq (inside : node ∈ nodes) :
    view.parent node = .ok (forest.parent node) := by
  obtain ⟨parent, answered⟩ := (presents.answers inside).parent
  rw [answered, presents.tells.parent answered]

theorem children_eq (inside : node ∈ nodes) :
    view.children node = .ok (forest.children node) := by
  obtain ⟨children, answered⟩ := (presents.answers inside).children
  rw [answered, presents.tells.children answered]

theorem isElement_eq (inside : node ∈ nodes) :
    view.isElement node = .ok (forest.isElement node) := by
  simp only [TreeView.isElement, bind_eq_ok, liftM_eq_ok, pure_eq_ok]
  exact ⟨_, presents.tagName_eq inside, rfl⟩

/-! ## Walks along links -/

theorem lineage_length_lt {lineage : List ν} (inside : node ∈ nodes)
    (complete : forest.Lineage node lineage) : lineage.length < nodes.card := by
  have distinct := complete.nodup presents.acyclic
  have among : (node :: lineage).toFinset ⊆ nodes := by
    intro other member
    rcases List.mem_cons.mp (List.mem_toFinset.mp member) with rfl | above
    · exact inside
    · exact (presents.mem_of_above (complete.mem_iff.mp above)).1
  have bound := Finset.card_le_card among
  rwa [List.toFinset_card_of_nodup distinct] at bound

private theorem elementAncestorsWithin_arrives {steps : Nat} {lineage : List ν}
    (inside : node ∈ nodes) (complete : forest.Lineage node lineage)
    (enough : lineage.length < steps) :
    view.elementAncestorsWithin steps node =
      .ok (lineage.filter forest.isElement) := by
  induction steps generalizing node lineage with
  | zero => exact (Nat.not_lt_zero _ enough).elim
  | succ steps induction =>
      simp only [TreeView.elementAncestorsWithin, bind_eq_ok, liftM_eq_ok]
      refine ⟨_, presents.parent_eq inside, ?_⟩
      cases complete with
      | top orphan => simp [orphan]
      | under link rest =>
          have above := (presents.links link).2
          simp only [link, bind_eq_ok, pure_eq_ok]
          refine ⟨_, presents.isElement_eq above, _,
            induction above rest (Nat.lt_of_succ_lt_succ enough), ?_⟩
          rw [List.filter_cons]

private theorem isBelowWithin_arrives (ancestor : ν) {steps : Nat} {lineage : List ν}
    (inside : node ∈ nodes) (complete : forest.Lineage node lineage)
    (enough : lineage.length < steps) :
    ∃ answer, view.isBelowWithin ancestor steps node = .ok answer := by
  induction steps generalizing node lineage with
  | zero => exact (Nat.not_lt_zero _ enough).elim
  | succ steps induction =>
      simp only [TreeView.isBelowWithin, bind_eq_ok, liftM_eq_ok]
      cases complete with
      | top orphan =>
          exact ⟨false, _, presents.parent_eq inside, by simp [orphan]⟩
      | @under _ parent further link rest =>
          by_cases same : parent = ancestor
          · exact ⟨true, _, presents.parent_eq inside, by simp [link, same]⟩
          · obtain ⟨answer, answered⟩ := induction (presents.links link).2 rest
              (Nat.lt_of_succ_lt_succ enough)
            exact ⟨answer, _, presents.parent_eq inside,
              by simp [link, same, answered]⟩

/-! ## Walks with a stack -/

theorem prepared_unfold {levels : Nat} {rest : List (Nat × ν)}
    (prepared : forest.Prepared nodes ((levels + 1, node) :: rest)) :
    forest.Prepared nodes ((forest.children node).map (levels, ·) ++ rest) := by
  obtain ⟨⟨-, lineage, complete, enough⟩, others⟩ := List.forall_mem_cons.mp prepared
  refine List.forall_mem_append.mpr ⟨?_, others⟩
  intro entry member
  obtain ⟨child, isChild, rfl⟩ := List.mem_map.mp member
  have link := presents.consistent.mem_children_iff.mp isChild
  refine ⟨(presents.links link).1, node :: lineage, .under link complete, ?_⟩
  rw [List.length_cons]
  omega

/-- A walk has no bad failures if its test has none on the nodes that it comes to. -/
theorem walk_gives {bad : MatchError → Prop} {test : ν → Except MatchError Bool}
    {stack : List (Nat × ν)} (prepared : forest.Prepared nodes stack)
    (tested : ∀ node, forest.Reached stack node → Gives bad (fun _ => True) (test node)) :
    Gives bad (fun _ => True) (view.walk test stack) := by
  fun_induction TreeView.walk view test stack with
  | case1 => exact .pure trivial
  | case2 first rest =>
      obtain ⟨inside, lineage, complete, enough⟩ := prepared _ List.mem_cons_self
      have fewer := presents.lineage_length_lt inside complete
      omega
  | case3 levels first rest induction =>
      have known := presents.children_eq (prepared _ List.mem_cons_self).1
      refine .bind (tested first (Forest.reached_cons_iff.mpr (Or.inl rfl))) fun keep _ => ?_
      refine .bind (.of_lifted known rfl) fun children same => ?_
      cases same
      refine .bind (induction (forest.children first) (presents.prepared_unfold prepared)
        fun other reached => ?_) fun others _ => .pure trivial
      exact tested other (Forest.reached_cons_iff.mpr (Or.inr
        ((presents.tells.reached_unfolded_iff presents.consistent known).mp reached)))

/-- A walk whose test answers for every node that it comes to arrives. -/
theorem walk_arrives {test : ν → Except MatchError Bool} {stack : List (Nat × ν)}
    (prepared : forest.Prepared nodes stack)
    (tested : ∀ node, forest.Reached stack node → ∃ answer, test node = .ok answer) :
    ∃ found, view.walk test stack = .ok found := by
  have gives : Gives (fun _ => True) (fun _ => True) (view.walk test stack) := by
    refine presents.walk_gives prepared fun node reached => ?_
    obtain ⟨answer, answered⟩ := tested node reached
    exact .of_answer answered trivial
  obtain ⟨found, answered, -⟩ := gives.exists_answer
  exact ⟨found, answered⟩

private theorem descendantElements_arrives (inside : node ∈ nodes) :
    ∃ elements, view.descendantElements node = .ok elements := by
  obtain ⟨lineage, complete⟩ := presents.acyclic.exists_lineage node
  have prepared : forest.Prepared nodes
      ((forest.children node).map (view.longestPath, ·)) := by
    intro entry member
    obtain ⟨child, isChild, rfl⟩ := List.mem_map.mp member
    have link := presents.consistent.mem_children_iff.mp isChild
    exact ⟨(presents.links link).1, node :: lineage, .under link complete,
      Nat.le_trans presents.longestPath (Nat.le_add_right _ _)⟩
  obtain ⟨found, walked⟩ := presents.walk_arrives prepared
    fun other reached => by
      obtain ⟨entry, member, place⟩ := reached
      have top := (prepared entry member).1
      rcases place with rfl | above
      · exact ⟨_, presents.isElement_eq top⟩
      · exact ⟨_, presents.isElement_eq (presents.mem_of_above above).2⟩
  refine ⟨found, ?_⟩
  simp only [TreeView.descendantElements, bind_eq_ok, liftM_eq_ok]
  exact ⟨_, presents.children_eq inside, walked⟩

/-! ## Matching is answered -/

/-- No question about the nodes fails, and all of them lead to other nodes of the
forest. -/
theorem safe_from (bad : MatchError → Prop) : view.Safe bad (· ∈ nodes) where
  tagName inside := .of_lifted (presents.tagName_eq inside) trivial
  text inside := by
    obtain ⟨text, answered⟩ := (presents.answers inside).text
    exact .of_lifted answered trivial
  attributeValue name inside := by
    obtain ⟨value, answered⟩ := (presents.answers inside).attributeValue name
    exact .of_lifted answered trivial
  id inside := by
    obtain ⟨value, answered⟩ := (presents.answers inside).id
    exact .of_lifted answered trivial
  hasClass name inside := by
    obtain ⟨answer, answered⟩ := (presents.answers inside).hasClass name
    exact .of_lifted answered trivial
  parent inside :=
    .of_lifted (presents.parent_eq inside) fun _ link => (presents.links link).2
  children inside :=
    .of_lifted (presents.children_eq inside) fun _ member =>
      (presents.links (presents.consistent.mem_children_iff.mp member)).1
  previousSiblings inside := by
    obtain ⟨siblings, answered⟩ := (presents.answers inside).previousSiblings
    refine .of_lifted answered fun sibling member => ?_
    rw [presents.tells.previousSiblings answered, List.mem_reverse] at member
    exact presents.mem_of_mem_before member
  nextSiblings inside := by
    obtain ⟨siblings, answered⟩ := (presents.answers inside).nextSiblings
    refine .of_lifted answered fun sibling member => ?_
    rw [presents.tells.nextSiblings answered] at member
    exact presents.mem_of_mem_after member
  elementAncestors {node} inside := by
    obtain ⟨lineage, complete⟩ := presents.acyclic.exists_lineage node
    have fewer := presents.lineage_length_lt inside complete
    refine .of_answer (presents.elementAncestorsWithin_arrives inside complete
      (Nat.lt_of_lt_of_le fewer presents.longestPath)) fun ancestor member => ?_
    have above := complete.mem_iff.mp (List.mem_filter.mp member).1
    exact (presents.mem_of_above above).1
  descendantElements inside := by
    obtain ⟨elements, answered⟩ := presents.descendantElements_arrives inside
    refine .of_answer answered fun element member => ?_
    have below := (Matching.mem_descendantElements_iff presents.tells
      presents.consistent answered).mp member
    exact (presents.mem_of_above below.1).2
  isBelow ancestor {node} inside := by
    obtain ⟨lineage, complete⟩ := presents.acyclic.exists_lineage node
    have fewer := presents.lineage_length_lt inside complete
    obtain ⟨answer, answered⟩ := presents.isBelowWithin_arrives ancestor inside
      complete (Nat.lt_of_lt_of_le fewer presents.longestPath)
    exact .of_answer answered trivial

theorem safe : view.Safe (fun _ => True) (· ∈ nodes) :=
  presents.safe_from _

/-- Matching that may go as deep as the selector is has an answer. -/
theorem exists_accepts (inside : node ∈ nodes) {maxDepth : Nat} {selector : Selector}
    (fits : Selector.depth selector ≤ maxDepth) :
    ∃ answer, selector.accepts view maxDepth node = .ok answer := by
  obtain ⟨answer, answered, -⟩ :=
    (Matching.accepts_gives presents.safe fits inside).exists_answer
  exact ⟨answer, answered⟩

theorem prepared_root (inside : node ∈ nodes) :
    forest.Prepared nodes [(view.longestPath, node)] := by
  obtain ⟨lineage, complete⟩ := presents.acyclic.exists_lineage node
  intro entry member
  rw [List.mem_singleton] at member
  subst member
  exact ⟨inside, lineage, complete,
    Nat.le_trans presents.longestPath (Nat.le_add_right _ _)⟩

/-- Selecting has no bad failures if it is not bad to exceed the limit. -/
theorem select_gives {bad : MatchError → Prop} (inside : node ∈ nodes) {maxDepth : Nat}
    (allowed : ¬ bad (.depthExceeded maxDepth)) (selector : Selector)
    (filter : Prefilter) :
    Gives bad (fun _ => True) (selector.select view maxDepth filter node) := by
  refine presents.walk_gives (presents.prepared_root inside) fun other reached => ?_
  have among : other ∈ nodes := by
    obtain ⟨entry, member, place⟩ := reached
    rw [List.mem_singleton] at member
    subst member
    rcases place with rfl | above
    · exact inside
    · exact (presents.mem_of_above above).2
  have safe := presents.safe_from bad
  refine .bind (safe.tagName among) fun tag _ => ?_
  split
  · exact Matching.accepts_gives_of_allowed safe allowed selector among
  · exact .pure trivial

end TreeView.Presents

/-! ## Forests as views -/

/-- The answers that a forest gives, if its elements have some attributes. -/
def Forest.queries (forest : Forest ν) (attributes : ν → List (String × String))
    (longestPath : Nat) : TreeQueries ν where
  tagName node := .ok (forest.tag node)
  attributes node := .ok (attributes node)
  parent node := .ok (forest.parent node)
  children node := .ok (forest.children node)
  text node := .ok (forest.text node)
  longestPath := longestPath

section

variable {forest : Forest ν} {attributes : ν → List (String × String)}
  {longestPath : Nat}

theorem Forest.Consistent.siblings_queries (consistent : forest.Consistent)
    (describe : ν → String) (node : ν) :
    (forest.queries attributes longestPath).siblings describe node =
      .ok (match forest.parent node with
        | none => []
        | some parent => forest.children parent) := by
  simp only [TreeQueries.siblings, queries, bind_eq_ok, Except.ok.injEq,
    exists_eq_left']
  cases link : forest.parent node with
  | none => rfl
  | some parent =>
      simp only [bind_eq_ok, Except.ok.injEq, exists_eq_left']
      rw [if_pos (consistent.mem_children_iff.mpr link)]
      rfl

/-- Every finite forest is presented by the view that its answers determine. -/
theorem Forest.presents {nodes : Finset ν} (consistent : forest.Consistent)
    (acyclic : forest.Acyclic)
    (links : ∀ {child parent : ν},
      forest.parent child = some parent → child ∈ nodes ∧ parent ∈ nodes)
    (values : ∀ node name,
      (attributes node).lookup name = forest.attributeValue node name)
    (enough : nodes.card ≤ longestPath) (describe : ν → String) :
    (TreeView.ofQueries (forest.queries attributes longestPath) describe).Presents
      forest nodes := by
  have value (node : ν) (name : String) :
      (forest.queries attributes longestPath).attributeValue node name =
        .ok (forest.attributeValue node name) := by
    rw [← values]
    rfl
  have inFront (node : ν) :
      (forest.queries attributes longestPath).previousSiblings describe node =
        .ok (forest.before node).reverse := by
    simp only [TreeQueries.previousSiblings, consistent.siblings_queries, bind_eq_ok,
      Except.ok.injEq, exists_eq_left', pure_eq_ok, Forest.before]
    cases forest.parent node <;> rfl
  have behind (node : ν) :
      (forest.queries attributes longestPath).nextSiblings describe node =
        .ok (forest.after node) := by
    simp only [TreeQueries.nextSiblings, consistent.siblings_queries, bind_eq_ok,
      Except.ok.injEq, exists_eq_left', pure_eq_ok, Forest.after]
    cases forest.parent node <;> rfl
  have word (node : ν) (name : String) :
      (forest.queries attributes longestPath).hasClass node name =
        .ok ((forest.attributeValue node "class").any (Text.hasWord · name)) := by
    simp only [TreeQueries.hasClass, value, bind_eq_ok, Except.ok.injEq,
      exists_eq_left', pure_eq_ok]
  constructor
  case consistent => exact consistent
  case acyclic => exact acyclic
  case links => exact links
  case longestPath => exact enough
  case answers =>
    intro node _
    exact ⟨⟨_, rfl⟩, ⟨_, rfl⟩, ⟨_, rfl⟩, ⟨_, rfl⟩, fun name => ⟨_, value node name⟩,
      ⟨_, value node "id"⟩, fun name => ⟨_, word node name⟩, ⟨_, inFront node⟩,
      ⟨_, behind node⟩⟩
  case tells =>
    constructor
    case attributeValue =>
      intro node name answer answered
      exact Except.ok.inj (answered.symm.trans (value node name))
    case id =>
      intro node answer answered
      exact Except.ok.inj (answered.symm.trans (value node "id"))
    case hasClass =>
      intro node name answer answered
      exact Except.ok.inj (answered.symm.trans (word node name))
    case previousSiblings =>
      intro node siblings answered
      exact Except.ok.inj (answered.symm.trans (inFront node))
    case nextSiblings =>
      intro node siblings answered
      exact Except.ok.inj (answered.symm.trans (behind node))
    all_goals
      intro node answer answered
      exact (Except.ok.inj answered).symm

end

end TreeSelectors
