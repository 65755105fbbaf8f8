import TreeSelectors.Proofs.Ancestors
import TreeSelectors.Proofs.Siblings
import TreeSelectors.Proofs.Tree.Growing
import TreeSelectors.Tree.View

/-!
# The links of a tree

In a linked tree the links of every node agree with the lists of children, and
going from parent to parent comes to an end.  Making a node keeps a tree linked,
and so does appending a node that has no parent to one that is not below it.
-/

namespace TreeSelectors

namespace Tree

/-- What a tree tells about its nodes. -/
def forest (tree : Tree) : Forest NodeId where
  tag id := (tree.element? id).map Element.tagName
  attributeValue id name := (tree.element? id).bind (·.attributes.get? name)
  text := tree.text?
  parent := tree.parent?
  children := tree.children

theorem lt_size_of_isElement {tree : Tree} {id : NodeId}
    (element : tree.forest.isElement id) : id < tree.size := by
  rw [← isSome_get?_iff]
  cases found : tree.get? id with
  | none => simp [Forest.isElement, forest, element?, found] at element
  | some node => rfl

structure Linked (tree : Tree) : Prop where
  parent_lt {child parent : NodeId} :
    tree.parent? child = some parent → parent < tree.size
  mem_children_iff {child parent : NodeId} :
    child ∈ tree.children parent ↔ tree.parent? child = some parent
  children_nodup (parent : NodeId) : (tree.children parent).Nodup
  siblings {parent child : NodeId} {front back : List NodeId} :
    tree.children parent = front ++ child :: back →
      tree.next? child = back.head? ∧ tree.previous? child = front.getLast?
  orphan {child : NodeId} :
    tree.parent? child = none →
      tree.next? child = none ∧ tree.previous? child = none
  acyclic : tree.forest.Acyclic

/-- The links of siblings among which there is no new one. -/
theorem attach_links_of_ne {tree : Tree} {parent child id : NodeId}
    (different : id ≠ child)
    (notLast : (tree.children parent).getLast? ≠ some id) :
    (tree.attach parent child).next? id = tree.next? id ∧
      (tree.attach parent child).previous? id = tree.previous? id := by
  rcases Nat.lt_or_ge id tree.size with inside | outside
  · rw [next?_attach inside, previous?_attach inside, if_neg notLast,
      if_neg different]
    exact ⟨rfl, rfl⟩
  · have unknown := get?_eq_none_iff.mpr outside
    simp [next?, previous?, get?_attach, unknown]

namespace Linked

variable {tree : Tree} {parent child : NodeId}

theorem consistent (linked : tree.Linked) : tree.forest.Consistent :=
  ⟨linked.mem_children_iff, linked.children_nodup⟩

theorem empty : Tree.empty.Linked := by
  have noParent (id : NodeId) : Tree.empty.parent? id = none := by
    cases id with
    | zero => rfl
    | succ id => rfl
  have noChildren (id : NodeId) : Tree.empty.children id = [] := by
    cases id with
    | zero => rfl
    | succ id => rfl
  constructor
  case parent_lt => simp [noParent]
  case mem_children_iff => simp [noParent, noChildren]
  case children_nodup => simp [noChildren]
  case siblings => simp [noChildren]
  case orphan =>
    intro child _
    cases child with
    | zero => exact ⟨rfl, rfl⟩
    | succ child => exact ⟨rfl, rfl⟩
  case acyclic =>
    constructor
    intro id
    constructor
    simp [forest, noParent]

theorem alloc (linked : tree.Linked) (data : NodeData) :
    (tree.alloc data).1.Linked := by
  constructor
  case parent_lt =>
    intro child parent link
    have older : tree.parent? child = some parent := by simpa using link
    simpa using Nat.lt_succ_of_lt (linked.parent_lt older)
  case mem_children_iff =>
    intro child parent
    simpa using linked.mem_children_iff
  case children_nodup =>
    intro parent
    simpa using linked.children_nodup parent
  case siblings =>
    intro parent child front back split
    simpa using linked.siblings (by simpa using split)
  case orphan =>
    intro child link
    simpa using linked.orphan (by simpa using link)
  case acyclic =>
    have same : (tree.alloc data).1.forest.parent = tree.forest.parent := by
      funext id
      exact parent?_alloc
    rw [Forest.Acyclic, same]
    exact linked.acyclic

theorem not_mem_children_of_free (linked : tree.Linked)
    (free : tree.parent? child = none) {other : NodeId} :
    child ∉ tree.children other := by
  rw [linked.mem_children_iff, free]
  simp

private theorem children_attach_nodup (linked : tree.Linked)
    (parentInTree : parent < tree.size) (free : tree.parent? child = none)
    (other : NodeId) :
    ((tree.attach parent child).children other).Nodup := by
  rw [children_attach parentInTree]
  split
  · have absent := @not_mem_children_of_free _ _ linked free parent
    rw [List.nodup_append]
    refine ⟨linked.children_nodup parent, by simp, ?_⟩
    rintro sibling member _ last rfl
    rw [List.mem_singleton] at last
    exact absent (last ▸ member)
  · exact linked.children_nodup other

private theorem orphan_attach (linked : tree.Linked) (childInTree : child < tree.size)
    {id : NodeId}
    (link : (tree.attach parent child).parent? id = none) :
    (tree.attach parent child).next? id = none ∧
      (tree.attach parent child).previous? id = none := by
  rw [parent?_attach childInTree] at link
  have different : id ≠ child := by
    rintro rfl
    simp at link
  rw [if_neg different] at link
  have notLast : (tree.children parent).getLast? ≠ some id := by
    intro last
    have own := linked.mem_children_iff.mp (List.mem_of_getLast? last)
    rw [link] at own
    cases own
  have same := attach_links_of_ne different notLast
  rw [same.1, same.2]
  exact linked.orphan link

private theorem acyclic_attach (linked : tree.Linked) (childInTree : child < tree.size)
    (free : tree.parent? child = none) (different : child ≠ parent)
    (notAbove : ¬ tree.forest.Above child parent) :
    (tree.attach parent child).forest.Acyclic := by
  have changed : (tree.attach parent child).forest.parent = fun id =>
      if id = child then some parent else tree.parent? id := by
    funext id
    exact parent?_attach childInTree
  simp only [Forest.Acyclic, changed]
  -- Above a node that is not below the new child, nothing has changed.
  have unchanged (id : NodeId) : id ≠ child → ¬ tree.forest.Above child id →
      Acc (fun upper lower =>
        (if lower = child then some parent else tree.parent? lower) =
          some upper) id := by
    induction id using WellFounded.induction linked.acyclic with
    | _ id induction =>
        intro notChild notBelow
        constructor
        intro upper link
        rw [if_neg notChild] at link
        refine induction upper link ?_ ?_
        · rintro rfl
          exact notBelow (.parent link)
        · exact fun above => notBelow (.further link above)
  have fromChild : Acc (fun upper lower =>
      (if lower = child then some parent else tree.parent? lower) =
        some upper) child := by
    constructor
    intro upper link
    rw [if_pos rfl] at link
    cases link
    exact unchanged parent different.symm notAbove
  constructor
  intro id
  induction id using WellFounded.induction linked.acyclic with
  | _ id induction =>
      by_cases isChild : id = child
      · exact isChild ▸ fromChild
      · constructor
        intro upper link
        rw [if_neg isChild] at link
        exact induction upper link

section Attach

variable (linked : tree.Linked) (parentInTree : parent < tree.size)
  (childInTree : child < tree.size) (free : tree.parent? child = none)
include linked parentInTree childInTree free

private theorem mem_children_attach_iff {id other : NodeId} :
    id ∈ (tree.attach parent child).children other ↔
      (tree.attach parent child).parent? id = some other := by
  rw [children_attach parentInTree, parent?_attach childInTree]
  have absent := @not_mem_children_of_free _ _ linked free other
  by_cases isChild : id = child
  · subst id
    by_cases isParent : other = parent
    · simp [isParent]
    · simp [isParent, Ne.symm isParent, absent]
  · rw [if_neg isChild, ← linked.mem_children_iff]
    by_cases isParent : other = parent
    · simp [isParent, isChild]
    · simp [isParent]

omit parentInTree in
private theorem siblings_attach_new :
    (tree.attach parent child).next? child = none ∧
      (tree.attach parent child).previous? child =
        (tree.children parent).getLast? := by
  have absent := @not_mem_children_of_free _ _ linked free parent
  have notLast : (tree.children parent).getLast? ≠ some child :=
    fun last => absent (List.mem_of_getLast? last)
  rw [next?_attach childInTree, previous?_attach childInTree, if_neg notLast,
    if_pos rfl, (linked.orphan free).1, (linked.orphan free).2]
  exact ⟨rfl, Option.or_none⟩

omit parentInTree childInTree in
/-- The children that were there before keep their siblings in front, and the
last of them gets one behind. -/
theorem siblings_attach_earlier {id : NodeId} {front others : List NodeId}
    (before : tree.children parent = front ++ id :: others) :
    (tree.attach parent child).next? id = (others ++ [child]).head? ∧
      (tree.attach parent child).previous? id = front.getLast? := by
  have absent := @not_mem_children_of_free _ _ linked free parent
  have own := linked.siblings before
  have member : id ∈ tree.children parent := by simp [before]
  have inside := lt_size_of_parent? (linked.mem_children_iff.mp member)
  have different : id ≠ child := fun same => absent (same ▸ member)
  rw [next?_attach inside, previous?_attach inside, if_neg different]
  refine ⟨?_, own.2⟩
  rcases List.eq_nil_or_concat others with rfl | ⟨more, last, rfl⟩
  · simp [before]
  · rw [List.concat_eq_append] at before own ⊢
    have distinct := linked.children_nodup parent
    rw [before, List.nodup_append] at distinct
    have apart := (List.nodup_cons.mp distinct.2.1).1
    simp only [List.mem_append, List.mem_singleton, not_or] at apart
    have notLast : (tree.children parent).getLast? ≠ some id := by
      rw [before, ← List.cons_append, ← List.append_assoc, List.getLast?_concat]
      simpa using Ne.symm apart.2
    rw [if_neg notLast, own.1]
    simp [List.head?_append]

omit parentInTree in
private theorem siblings_attach_elsewhere {other id : NodeId} {front back : List NodeId}
    (isOther : other ≠ parent) (split : tree.children other = front ++ id :: back) :
    (tree.attach parent child).next? id = back.head? ∧
      (tree.attach parent child).previous? id = front.getLast? := by
  have link : tree.parent? id = some other :=
    linked.mem_children_iff.mp (by simp [split])
  have different : id ≠ child := by
    rintro rfl
    rw [free] at link
    cases link
  have notLast : (tree.children parent).getLast? ≠ some id := by
    intro last
    have own := linked.mem_children_iff.mp (List.mem_of_getLast? last)
    rw [link] at own
    exact isOther (Option.some.inj own)
  have same := attach_links_of_ne different notLast
  rw [same.1, same.2]
  exact linked.siblings split

private theorem siblings_attach {other id : NodeId} {front back : List NodeId}
    (split : (tree.attach parent child).children other = front ++ id :: back) :
    (tree.attach parent child).next? id = back.head? ∧
      (tree.attach parent child).previous? id = front.getLast? := by
  rw [children_attach parentInTree] at split
  by_cases isParent : other = parent
  · rw [if_pos isParent] at split
    rcases List.eq_nil_or_concat back with rfl | ⟨others, last, rfl⟩
    · obtain ⟨rfl, same⟩ := List.append_inj' split rfl
      cases same
      exact siblings_attach_new linked childInTree free
    · rw [List.concat_eq_append, ← List.cons_append,
        ← List.append_assoc] at split
      obtain ⟨before, same⟩ := List.append_inj' split rfl
      cases same
      rw [List.concat_eq_append]
      exact siblings_attach_earlier linked free before
  · rw [if_neg isParent] at split
    exact siblings_attach_elsewhere linked childInTree free isParent split

/-- Appending a node without a parent to one that is not below it keeps a tree
linked. -/
theorem attach (different : child ≠ parent)
    (notAbove : ¬ tree.forest.Above child parent) :
    (tree.attach parent child).Linked where
  parent_lt := by
    intro id other link
    rw [size_attach]
    rw [parent?_attach childInTree] at link
    split at link
    · cases link
      exact parentInTree
    · exact linked.parent_lt link
  mem_children_iff :=
    mem_children_attach_iff linked parentInTree childInTree free
  children_nodup := children_attach_nodup linked parentInTree free
  siblings := siblings_attach linked parentInTree childInTree free
  orphan := orphan_attach linked childInTree
  acyclic := acyclic_attach linked childInTree free different notAbove

end Attach

end Linked

end Tree

end TreeSelectors
