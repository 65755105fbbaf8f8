import TreeSelectors.Proofs.DocumentOrder
import TreeSelectors.Proofs.Presentation
import TreeSelectors.Proofs.Tree.View

/-!
# Walks over a linked tree

No path of a linked tree is longer than the tree, so that walks over it arrive:
the descendants of a node are listed completely, and the view presents the tree
as a finite forest.
-/

namespace TreeSelectors

namespace Tree

/-- The nodes on a stack of nodes from which a walk may go down equally far. -/
@[simp] theorem map_snd_levels (levels : Nat) (nodes : List NodeId) :
    (nodes.map (levels, ·)).map Prod.snd = nodes := by
  simp [Function.comp_def]

namespace Linked

variable {tree : Tree}

/-- The view of a linked tree presents its forest. -/
theorem presents (linked : tree.Linked) :
    tree.view.Presents tree.forest (Finset.range tree.size) where
  tells := linked.tells
  answers {id} inside := by
    obtain ⟨⟨data, _⟩, found⟩ :=
      Option.isSome_iff_exists.mp (isSome_get?_iff.mpr (Finset.mem_range.mp inside))
    have known := lookup_eq_ok_iff.mpr found
    constructor
    case tagName | text =>
      simp only [view, queries, known]
      cases data <;> exact ⟨_, rfl⟩
    case attributeValue =>
      intro name
      simp only [view, known]
      cases data <;> exact ⟨_, rfl⟩
    case hasClass =>
      intro name
      simp only [view, known]
      exact ⟨_, rfl⟩
    case parent | children | id | previousSiblings | nextSiblings =>
      simp only [view, queries, known]
      exact ⟨_, rfl⟩
  consistent := linked.consistent
  acyclic := linked.acyclic
  links link :=
    ⟨Finset.mem_range.mpr (lt_size_of_parent? link),
      Finset.mem_range.mpr (linked.parent_lt link)⟩
  longestPath := by
    rw [Finset.card_range]
    exact Nat.le_succ _

/-- A walk that may go down far enough lists the nodes of its stack, each followed by
those below it. -/
theorem unfold_preorder (linked : tree.Linked) {stack : List (Nat × NodeId)}
    (prepared : tree.forest.Prepared (Finset.range tree.size) stack) :
    tree.forest.Preorder (stack.map Prod.snd) (tree.unfold stack) := by
  have presents := linked.presents
  fun_induction Tree.unfold tree stack with
  | case1 => exact .nil
  | case2 id rest =>
      obtain ⟨inside, lineage, complete, enough⟩ := prepared _ List.mem_cons_self
      have fewer := presents.lineage_length_lt inside complete
      omega
  | case3 levels id rest induction =>
      have listed := induction (presents.prepared_unfold prepared)
      rw [List.map_append, map_snd_levels] at listed
      obtain ⟨below, others, whole, inner, outer⟩ := listed.exists_append
      rw [whole]
      exact .cons inner outer

/-- The descendants of a node are the listing of its children. -/
theorem descendants_preorder (linked : tree.Linked) (id : NodeId) :
    tree.forest.Preorder (tree.children id) (tree.descendants id) := by
  obtain ⟨lineage, complete⟩ := linked.acyclic.exists_lineage id
  have prepared : tree.forest.Prepared (Finset.range tree.size)
      ((tree.children id).map (tree.size, ·)) := by
    intro entry member
    obtain ⟨child, isChild, rfl⟩ := List.mem_map.mp member
    refine ⟨Finset.mem_range.mpr (linked.child_lt isChild), id :: lineage,
      .under (linked.mem_children_iff.mp isChild) complete, ?_⟩
    rw [Finset.card_range]
    exact Nat.le_add_right _ _
  have listed := linked.unfold_preorder prepared
  rwa [map_snd_levels] at listed

/-- A node and its descendants are the listing of the node. -/
theorem preorder (linked : tree.Linked) (id : NodeId) :
    tree.forest.Preorder [id] (id :: tree.descendants id) := by
  have listed := Forest.Preorder.cons (linked.descendants_preorder id) .nil
  rwa [List.append_nil] at listed

theorem descendants_nodup (linked : tree.Linked) (id : NodeId) :
    (id :: tree.descendants id).Nodup := by
  refine (linked.preorder id).nodup linked.consistent linked.acyclic (by simp) ?_
  intro left leftMember right rightMember
  rw [List.mem_singleton] at leftMember rightMember
  subst left right
  exact linked.acyclic.not_above_self id

end Linked

end Tree

end TreeSelectors
