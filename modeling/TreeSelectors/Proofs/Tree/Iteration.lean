import TreeSelectors.Proofs.Tree.Construction
import TreeSelectors.Proofs.Tree.Walks

/-!
# Walks through grown trees

A walk along a link or with a stack has no bound of its own.  In a tree that was put
together from allowed calls, each of them ends: upwards it visits the nodes above a node,
sidewards the siblings on one side, and downwards everything below, in document order.
-/

namespace TreeSelectors

namespace Tree

/-- `tree.Empties stack nodes`: a walk that takes the first node off a stack and puts
its children in its place visits the nodes, and ends when the stack is empty. -/
inductive Empties (tree : Tree) : List NodeId → List NodeId → Prop where
  | nil : Empties tree [] []
  | cons {id : NodeId} {rest visited : List NodeId} :
      Empties tree (tree.children id ++ rest) visited →
      Empties tree (id :: rest) (id :: visited)

variable {tree : Tree}

/-- Nodes on a stack are visited in document order before what lies under them. -/
theorem Empties.of_preorder {nodes listing stack visited : List NodeId}
    (listed : tree.forest.Preorder nodes listing) (empties : tree.Empties stack visited) :
    tree.Empties (nodes ++ stack) (listing ++ visited) := by
  induction listed generalizing stack visited with
  | nil => exact empties
  | cons _ _ inner outer =>
      rw [List.cons_append, List.cons_append, List.append_assoc]
      exact .cons (inner (outer empties))

/-- A walk from parent to parent visits the nodes above a node. -/
theorem visits_lineage {id : NodeId} {lineage : List NodeId}
    (complete : tree.forest.Lineage id lineage) :
    Visits tree.parent? (tree.parent? id) lineage := by
  induction complete with
  | top orphan =>
      have none : tree.parent? _ = none := orphan
      exact none ▸ .stop
  | under link _ induction =>
      have parent : tree.parent? _ = some _ := link
      exact parent ▸ .step induction

namespace Linked

variable (linked : tree.Linked)

include linked

/-- No line of ancestors is longer than the tree. -/
theorem length_lineage_le {id : NodeId} {lineage : List NodeId}
    (complete : tree.forest.Lineage id lineage) : lineage.length ≤ tree.size := by
  have distinct := complete.nodup linked.acyclic
  refine length_le_size (List.nodup_cons.mp distinct).2 fun other member => ?_
  exact Finset.mem_range.mp
    (linked.presents.mem_of_above (complete.mem_iff.mp member)).1

theorem ancestors_lineage (id : NodeId) :
    tree.forest.Lineage id (tree.ancestors id) := by
  obtain ⟨lineage, complete⟩ := linked.acyclic.exists_lineage id
  have all := (visits_lineage complete).follow_eq (linked.length_lineage_le complete)
  rw [ancestors, all]
  exact complete

theorem mem_ancestors_iff {id other : NodeId} :
    other ∈ tree.ancestors id ↔ tree.forest.Above other id :=
  (linked.ancestors_lineage id).mem_iff

theorem mem_descendants_iff {id other : NodeId} :
    other ∈ tree.descendants id ↔ tree.forest.Above id other := by
  rw [(linked.descendants_preorder id).mem_iff linked.consistent, Forest.Above.child_iff]
  simp only [← linked.consistent.mem_children_iff]
  rfl

/-- The siblings on both sides of a child are the parts of the children of its parent. -/
theorem siblings_split {parent child : NodeId}
    (link : tree.parent? child = some parent) :
    ∃ front back, tree.children parent = front ++ child :: back ∧
      child ∉ front ∧ child ∉ back ∧
      tree.precedingSiblings child = front.reverse ∧
      tree.followingSiblings child = back := by
  have split := linked.consistent.children_eq (show tree.forest.parent child = _ from link)
  have notAfter : child ∉ tree.forest.after child := fun member =>
    linked.consistent.not_mem_before_self child
      (linked.consistent.mem_after_iff.mp member)
  exact ⟨_, _, split, linked.consistent.not_mem_before_self child, notAfter,
    linked.precedingSiblings_eq child, linked.followingSiblings_eq child⟩

private theorem siblings_orphan {id : NodeId} (orphan : tree.parent? id = none) :
    tree.precedingSiblings id = [] ∧ tree.followingSiblings id = [] := by
  rw [linked.precedingSiblings_eq, linked.followingSiblings_eq]
  simp [Forest.before, Forest.after, forest, orphan]

end Linked

/-- However a tree is put together from the document alone, by calls that append only
free nodes, all walks through it end.  Downwards they list everything below a node, each
node once and in document order, and exactly the nodes from which a walk upwards comes
by; sidewards they list the two parts of the children of the parent, so that a node is in
front of another one exactly if this is behind it. -/
theorem Grows.walks_agree {tree : Tree} (grows : Tree.empty.Grows tree) :
    (∀ id, Visits tree.parent? (tree.parent? id) (tree.ancestors id) ∧
      Visits tree.previous? (tree.previous? id) (tree.precedingSiblings id) ∧
      Visits tree.next? (tree.next? id) (tree.followingSiblings id) ∧
      tree.Empties (tree.children id) (tree.descendants id)) ∧
    (∀ id, tree.forest.Preorder (tree.children id) (tree.descendants id) ∧
      (tree.descendants id).Nodup ∧
      ∀ other, other ∈ tree.descendants id ↔ tree.forest.Above id other) ∧
    (∀ id other, other ∈ tree.descendants id ↔ id ∈ tree.ancestors other) ∧
    (∀ id parent, tree.parent? id = some parent →
      ∃ front back, tree.children parent = front ++ id :: back ∧
        id ∉ front ∧ id ∉ back ∧
        tree.precedingSiblings id = front.reverse ∧ tree.followingSiblings id = back) ∧
    (∀ id, tree.parent? id = none →
      tree.precedingSiblings id = [] ∧ tree.followingSiblings id = []) ∧
    ∀ id other,
      other ∈ tree.precedingSiblings id ↔ id ∈ tree.followingSiblings other := by
  have linked := Linked.empty.grows grows
  refine ⟨fun id => ⟨?upwards, ?backwards, ?forwards, ?downwards⟩, fun id => ?listing,
    fun id other => ?both, fun id parent link => linked.siblings_split link,
    fun id orphan => linked.siblings_orphan orphan, fun id other => ?siblings⟩
  case upwards => exact visits_lineage (linked.ancestors_lineage id)
  case backwards =>
    rw [linked.precedingSiblings_eq]
    exact linked.visits_before id
  case forwards =>
    rw [linked.followingSiblings_eq]
    exact linked.visits_after id
  case downwards =>
    have empties := Empties.of_preorder (linked.descendants_preorder id) .nil
    rwa [List.append_nil, List.append_nil] at empties
  case listing =>
    exact ⟨linked.descendants_preorder id,
      (List.nodup_cons.mp (linked.descendants_nodup id)).2,
      fun other => linked.mem_descendants_iff⟩
  case both => rw [linked.mem_descendants_iff, linked.mem_ancestors_iff]
  case siblings =>
    rw [linked.precedingSiblings_eq, linked.followingSiblings_eq, List.mem_reverse]
    exact linked.consistent.mem_after_iff.symm

/-- The text of the first item is below the list, and the comment behind the item. -/
theorem Grows.walks_agree_listTree :
    Tree.empty.Grows listTree ∧ 3 ∈ listTree.descendants 1 ∧
      4 ∉ listTree.descendants 2 ∧ listTree.precedingSiblings 4 = [2] ∧
      4 ∈ listTree.followingSiblings 2 := by
  obtain ⟨-, -, upwards, -, -, sidewards⟩ := walks_agree grows_listTree
  have before : listTree.precedingSiblings 4 = [2] := by decide
  refine ⟨grows_listTree, (upwards 1 3).mpr (by decide), ?_, before,
    (sidewards 4 2).mp (by simp [before])⟩
  exact fun member => absurd ((upwards 2 4).mp member) (by decide)

end Tree

end TreeSelectors
