import TreeSelectors.Proofs.Answer
import TreeSelectors.Proofs.Tree.Links

/-!
# The view of a linked tree

A walk along a link visits nodes until it comes to one without that link.  The links
between siblings lead through the children of the parent, so that the view of a linked
tree tells the facts of its forest.
-/

namespace TreeSelectors

namespace Tree

variable {tree : Tree}

/-! ## Walks along a link -/

/-- `Visits link start nodes`: a walk that goes on from each node to the one that it is
linked with visits the nodes, and ends behind the last one. -/
inductive Visits (link : NodeId → Option NodeId) :
    Option NodeId → List NodeId → Prop where
  | stop : Visits link none []
  | step {id : NodeId} {rest : List NodeId} :
      Visits link (link id) rest → Visits link (some id) (id :: rest)

/-- As many steps as a walk takes lead to its end. -/
theorem Visits.follow_eq {link : NodeId → Option NodeId} {start : Option NodeId}
    {nodes : List NodeId} {steps : Nat} (visits : Visits link start nodes)
    (enough : nodes.length ≤ steps) : follow link steps start = nodes := by
  induction visits generalizing steps with
  | stop =>
      cases steps with
      | zero => rfl
      | succ steps => rfl
  | @step id rest _ induction =>
      cases steps with
      | zero => cases enough
      | succ steps => rw [follow, induction (Nat.le_of_succ_le_succ enough)]

/-- A link that goes from each node of a list to the next one leads through the list. -/
theorem visits_head? {link : NodeId → Option NodeId} {nodes : List NodeId}
    (chained : ∀ {front : List NodeId} {id : NodeId} {back : List NodeId},
      nodes = front ++ id :: back → link id = back.head?) :
    Visits link nodes.head? nodes := by
  induction nodes with
  | nil => exact .stop
  | cons id rest induction =>
      have next : link id = rest.head? := @chained [] id rest rfl
      refine .step (next ▸ induction ?_)
      intro front other back split
      exact @chained (id :: front) other back (by rw [split, List.cons_append])

/-- No more distinct nodes are in a tree than its size says. -/
theorem length_le_size {nodes : List NodeId} (distinct : nodes.Nodup)
    (inTree : ∀ id ∈ nodes, id < tree.size) : nodes.length ≤ tree.size := by
  have among : nodes ⊆ List.range tree.size := by
    intro id member
    exact List.mem_range.mpr (inTree id member)
  have bound := distinct.length_le_of_subset among
  rwa [List.length_range] at bound

namespace Linked

theorem child_lt (linked : tree.Linked) {parent child : NodeId}
    (member : child ∈ tree.children parent) : child < tree.size :=
  lt_size_of_parent? (linked.mem_children_iff.mp member)

theorem visits_after (linked : tree.Linked) (id : NodeId) :
    Visits tree.next? (tree.next? id) (tree.forest.after id) := by
  cases link : tree.parent? id with
  | none =>
      have none : tree.forest.after id = [] := by simp [Forest.after, forest, link]
      rw [(linked.orphan link).1, none]
      exact .stop
  | some parent =>
      have split : tree.children parent =
          tree.forest.before id ++ id :: tree.forest.after id :=
        linked.consistent.children_eq (show tree.forest.parent id = _ from link)
      rw [(linked.siblings split).1]
      refine visits_head? ?_
      intro front other back part
      rw [part, ← List.cons_append, ← List.append_assoc] at split
      exact (linked.siblings split).1

theorem visits_before (linked : tree.Linked) (id : NodeId) :
    Visits tree.previous? (tree.previous? id) (tree.forest.before id).reverse := by
  cases link : tree.parent? id with
  | none =>
      have none : tree.forest.before id = [] := by simp [Forest.before, forest, link]
      rw [(linked.orphan link).2, none]
      exact .stop
  | some parent =>
      have split : tree.children parent =
          tree.forest.before id ++ id :: tree.forest.after id :=
        linked.consistent.children_eq (show tree.forest.parent id = _ from link)
      rw [(linked.siblings split).2, ← List.head?_reverse]
      refine visits_head? ?_
      intro front other back part
      have inOrder : tree.forest.before id =
          back.reverse ++ other :: front.reverse := by
        rw [← List.reverse_reverse (tree.forest.before id), part]
        simp
      rw [inOrder, List.append_assoc, List.cons_append] at split
      rw [(linked.siblings split).2, List.getLast?_reverse]

/-- No more siblings stand on a side of a node than the tree has nodes. -/
theorem length_siblings_le (linked : tree.Linked) (id : NodeId) :
    (tree.forest.before id).length ≤ tree.size ∧
      (tree.forest.after id).length ≤ tree.size := by
  cases link : tree.parent? id with
  | none => simp [Forest.before, Forest.after, forest, link]
  | some parent =>
      have split : tree.children parent =
          tree.forest.before id ++ id :: tree.forest.after id :=
        linked.consistent.children_eq (show tree.forest.parent id = _ from link)
      have all := length_le_size (linked.children_nodup parent)
        fun _ member => linked.child_lt member
      rw [split, List.length_append, List.length_cons] at all
      omega

theorem followingSiblings_eq (linked : tree.Linked) (id : NodeId) :
    tree.followingSiblings id = tree.forest.after id :=
  (linked.visits_after id).follow_eq (linked.length_siblings_le id).2

theorem precedingSiblings_eq (linked : tree.Linked) (id : NodeId) :
    tree.precedingSiblings id = (tree.forest.before id).reverse := by
  refine (linked.visits_before id).follow_eq ?_
  rw [List.length_reverse]
  exact (linked.length_siblings_le id).1

end Linked

@[simp] theorem lookup_eq_ok_iff {id : NodeId} {node : Node} :
    tree.lookup id = .ok node ↔ tree.get? id = some node := by
  rw [lookup]
  cases tree.get? id with
  | none => simp
  | some found => simp

/-- The view of a linked tree tells what its forest says. -/
theorem Linked.tells (linked : tree.Linked) : tree.view.Tells tree.forest where
  tagName := by
    intro id tag answered
    simp only [view, queries, bind_eq_ok, lookup_eq_ok_iff] at answered
    obtain ⟨node, found, answered⟩ := answered
    simp only [forest, element?, found, Option.map_some]
    cases data : node.data <;> simp_all
  parent := by
    intro id parent answered
    simp only [view, queries, bind_eq_ok, lookup_eq_ok_iff, pure_eq_ok] at answered
    obtain ⟨node, found, rfl⟩ := answered
    simp [forest, parent?, found]
  children := by
    intro id children answered
    simp only [view, queries, bind_eq_ok, lookup_eq_ok_iff, pure_eq_ok] at answered
    obtain ⟨node, found, rfl⟩ := answered
    simp [forest, Tree.children, found]
  text := by
    intro id text answered
    simp only [view, queries, bind_eq_ok, lookup_eq_ok_iff] at answered
    obtain ⟨node, found, answered⟩ := answered
    simp only [forest, text?, found, Option.map_some]
    cases data : node.data <;> simp_all
  attributeValue := by
    intro id name value answered
    simp only [view, bind_eq_ok, lookup_eq_ok_iff] at answered
    obtain ⟨node, found, answered⟩ := answered
    simp only [forest, element?, found, Option.map_some]
    cases data : node.data <;> simp_all
  id := by
    intro id value answered
    simp only [view, bind_eq_ok, pure_eq_ok] at answered
    obtain ⟨node, found, rfl⟩ := answered
    rfl
  hasClass := by
    intro id name answer answered
    simp only [view, bind_eq_ok, pure_eq_ok] at answered
    obtain ⟨node, found, rfl⟩ := answered
    simp only [forest]
    cases tree.element? id <;> rfl
  previousSiblings := by
    intro id siblings answered
    simp only [view, bind_eq_ok, pure_eq_ok] at answered
    obtain ⟨node, found, rfl⟩ := answered
    exact linked.precedingSiblings_eq id
  nextSiblings := by
    intro id siblings answered
    simp only [view, bind_eq_ok, pure_eq_ok] at answered
    obtain ⟨node, found, rfl⟩ := answered
    exact linked.followingSiblings_eq id

end Tree

end TreeSelectors
