import TreeSelectors.Proofs.Ancestors
import TreeSelectors.Proofs.Answer
import TreeSelectors.Proofs.Matching.Semantics

/-!
# Answers about the elements around a node

If a view tells the facts of a forest, then so do the walks over it: whenever a
walk arrives, it has found what the forest says.
-/

namespace TreeSelectors

namespace Forest

variable {ν : Type} {forest : Forest ν}

/-- The nodes that a walk with a stack comes to: those on the stack, and those
below them. -/
def Reached (forest : Forest ν) (stack : List (Nat × ν)) (node : ν) : Prop :=
  ∃ entry ∈ stack, node = entry.2 ∨ forest.Above entry.2 node

theorem reached_cons_iff {levels : Nat} {first : ν} {rest : List (Nat × ν)}
    {node : ν} :
    forest.Reached ((levels, first) :: rest) node ↔
      node = first ∨ forest.Above first node ∨ forest.Reached rest node := by
  simp only [Reached, List.mem_cons, exists_eq_or_imp, or_assoc]

end Forest

namespace TreeView.Tells

variable {ν : Type} [DecidableEq ν] {view : TreeView ν} {forest : Forest ν}

theorem isElement (tells : view.Tells forest) {node : ν} {answer : Bool}
    (answered : view.isElement node = .ok answer) :
    answer = forest.isElement node := by
  simp only [TreeView.isElement, bind_eq_ok, liftM_eq_ok, pure_eq_ok] at answered
  obtain ⟨tag, known, rfl⟩ := answered
  rw [tells.tagName known, Forest.isElement]

theorem onlyElements (tells : view.Tells forest) {nodes elements : List ν}
    (answered : view.onlyElements nodes = .ok elements) :
    elements = nodes.filter forest.isElement := by
  induction nodes generalizing elements with
  | nil =>
      simp only [TreeView.onlyElements, pure_eq_ok] at answered
      rw [← answered, List.filter_nil]
  | cons node rest induction =>
      simp only [TreeView.onlyElements, bind_eq_ok, pure_eq_ok] at answered
      obtain ⟨keep, kept, others, collected, rfl⟩ := answered
      rw [tells.isElement kept, induction collected, List.filter_cons]

theorem parentElement (tells : view.Tells forest) {node : ν} {answer : Option ν}
    (answered : view.parentElement node = .ok answer) :
    answer = (forest.parent node).filter forest.isElement := by
  simp only [TreeView.parentElement, bind_eq_ok, liftM_eq_ok] at answered
  obtain ⟨parent, known, answered⟩ := answered
  rw [← tells.parent known]
  cases parent with
  | none =>
      simp only [pure_eq_ok] at answered
      rw [← answered, Option.filter_none]
  | some parent =>
      simp only [bind_eq_ok, pure_eq_ok] at answered
      obtain ⟨keep, kept, rfl⟩ := answered
      rw [tells.isElement kept, Option.filter_some]

theorem elementAncestors (tells : view.Tells forest) {node : ν}
    {elements : List ν} (answered : view.elementAncestors node = .ok elements) :
    ∃ lineage, forest.Lineage node lineage ∧
      elements = lineage.filter forest.isElement := by
  unfold TreeView.elementAncestors at answered
  generalize view.longestPath = steps at answered
  induction steps generalizing node elements with
  | zero => simp [TreeView.elementAncestorsWithin] at answered
  | succ steps induction =>
      simp only [TreeView.elementAncestorsWithin, bind_eq_ok, liftM_eq_ok] at answered
      obtain ⟨parent, known, answered⟩ := answered
      have link := tells.parent known
      cases parent with
      | none =>
          simp only [pure_eq_ok] at answered
          exact ⟨[], .top link.symm, by rw [← answered, List.filter_nil]⟩
      | some parent =>
          simp only [bind_eq_ok, pure_eq_ok] at answered
          obtain ⟨keep, kept, further, collected, rfl⟩ := answered
          obtain ⟨lineage, complete, rfl⟩ := induction collected
          refine ⟨parent :: lineage, .under link.symm complete, ?_⟩
          rw [tells.isElement kept, List.filter_cons]

theorem isBelow (tells : view.Tells forest) {ancestor node : ν} {answer : Bool}
    (answered : view.isBelow ancestor node = .ok answer) :
    answer = true ↔ forest.Above ancestor node := by
  unfold TreeView.isBelow at answered
  generalize view.longestPath = steps at answered
  induction steps generalizing node with
  | zero => simp [TreeView.isBelowWithin] at answered
  | succ steps induction =>
      simp only [TreeView.isBelowWithin, bind_eq_ok, liftM_eq_ok] at answered
      obtain ⟨parent, known, answered⟩ := answered
      have link := tells.parent known
      rw [Forest.Above.parent_iff, ← link]
      cases parent with
      | none =>
          simp only [pure_eq_ok] at answered
          simp [← answered]
      | some parent =>
          by_cases same : parent = ancestor
          · simp only [same, if_true, pure_eq_ok] at answered
            simp [← answered, same]
          · simp only [same, if_false] at answered
            simp [induction answered, Ne.symm same]

theorem previousElements (tells : view.Tells forest) {node : ν}
    {elements : List ν} (answered : view.previousElements node = .ok elements) :
    elements = ((forest.before node).filter forest.isElement).reverse := by
  simp only [TreeView.previousElements, bind_eq_ok, liftM_eq_ok] at answered
  obtain ⟨siblings, known, answered⟩ := answered
  rw [tells.onlyElements answered, tells.previousSiblings known,
    List.filter_reverse]

theorem nextElements (tells : view.Tells forest) {node : ν}
    {elements : List ν} (answered : view.nextElements node = .ok elements) :
    elements = (forest.after node).filter forest.isElement := by
  simp only [TreeView.nextElements, bind_eq_ok, liftM_eq_ok] at answered
  obtain ⟨siblings, known, answered⟩ := answered
  rw [tells.onlyElements answered, tells.nextSiblings known]

theorem childElements (tells : view.Tells forest) {node : ν}
    {elements : List ν} (answered : view.childElements node = .ok elements) :
    elements = (forest.children node).filter forest.isElement := by
  simp only [TreeView.childElements, bind_eq_ok, liftM_eq_ok] at answered
  obtain ⟨children, known, answered⟩ := answered
  rw [tells.onlyElements answered, tells.children known]

/-! ## Walks with a stack -/

theorem reached_unfolded_iff (tells : view.Tells forest)
    (consistent : forest.Consistent) {levels : Nat} {first : ν}
    {children : List ν} (known : view.children first = .ok children)
    {rest : List (Nat × ν)} {node : ν} :
    forest.Reached (children.map (levels, ·) ++ rest) node ↔
      forest.Above first node ∨ forest.Reached rest node := by
  rw [@Forest.Above.child_iff _ _ _ node, tells.children known]
  simp only [Forest.Reached, List.mem_append, List.mem_map, or_and_right,
    exists_or, exists_exists_and_eq_and, consistent.mem_children_iff]

/-- A walk that arrives has an answer for every node that it comes to. -/
theorem walk_tested (tells : view.Tells forest) (consistent : forest.Consistent)
    {test : ν → Except MatchError Bool} {stack : List (Nat × ν)}
    {found : List ν} (answered : view.walk test stack = .ok found) {node : ν}
    (reached : forest.Reached stack node) : ∃ answer, test node = .ok answer := by
  fun_induction TreeView.walk view test stack generalizing found with
  | case1 => simp [Forest.Reached] at reached
  | case2 => simp at answered
  | case3 levels first rest induction =>
      simp only [bind_eq_ok, pure_eq_ok, liftM_eq_ok] at answered
      obtain ⟨keep, kept, children, known, others, collected, rfl⟩ := answered
      rw [Forest.reached_cons_iff] at reached
      rcases reached with rfl | further
      · exact ⟨keep, kept⟩
      · exact induction children collected
          ((reached_unfolded_iff tells consistent known).mpr further)

/-- A walk finds the nodes that pass the test among those that it comes to. -/
theorem mem_walk_iff (tells : view.Tells forest) (consistent : forest.Consistent)
    {test : ν → Except MatchError Bool} {stack : List (Nat × ν)}
    {found : List ν} (answered : view.walk test stack = .ok found) {node : ν} :
    node ∈ found ↔ test node = .ok true ∧ forest.Reached stack node := by
  fun_induction TreeView.walk view test stack generalizing found with
  | case1 =>
      simp only [pure_eq_ok] at answered
      simp [← answered, Forest.Reached]
  | case2 => simp at answered
  | case3 levels first rest induction =>
      simp only [bind_eq_ok, pure_eq_ok, liftM_eq_ok] at answered
      obtain ⟨keep, kept, children, known, others, collected, rfl⟩ := answered
      have inOthers := induction children collected
      rw [reached_unfolded_iff tells consistent known] at inOthers
      rw [Forest.reached_cons_iff]
      by_cases same : node = first
      · subst node
        cases keep <;> simp [inOthers, kept]
      · have skipped : (node ∈ if keep then first :: others else others) ↔
            node ∈ others := by
          cases keep <;> simp [same]
        rw [skipped, inOthers]
        simp [same]

end TreeView.Tells

end TreeSelectors
