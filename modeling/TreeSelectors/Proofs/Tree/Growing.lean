import TreeSelectors.Tree.Outline

/-!
# What growing a tree changes

Making a node leaves all others as they are, and appending one changes only the
links of the new parent, of the appended child, and of the previous last child.
-/

namespace TreeSelectors

namespace Tree

variable {tree : Tree} {id parent child other : NodeId} {data : NodeData}

/-- What a node is, apart from its links. -/
def data? (tree : Tree) (id : NodeId) : Option NodeData :=
  (tree.get? id).map Node.data

@[simp] theorem get?_eq_none_iff : tree.get? id = none ↔ tree.size ≤ id :=
  Array.getElem?_eq_none_iff

@[simp] theorem isSome_get?_iff : (tree.get? id).isSome ↔ id < tree.size := by
  rw [← Option.ne_none_iff_isSome, Ne, get?_eq_none_iff, Nat.not_le]

theorem lt_size_of_parent? (link : tree.parent? child = some parent) :
    child < tree.size := by
  rw [← isSome_get?_iff]
  cases found : tree.get? child with
  | none => simp [parent?, found] at link
  | some node => rfl

/-! ## Making a node -/

@[simp] theorem size_alloc : (tree.alloc data).1.size = tree.size + 1 :=
  Array.size_push _

@[simp] theorem get?_alloc :
    (tree.alloc data).1.get? id =
      if id = tree.size then some (.alone data) else tree.get? id :=
  Array.getElem?_push

/-- A function of nodes that is not defined on nodes without links. -/
theorem bind_get?_alloc {α : Type} {link : Node → Option α}
    (absent : link (.alone data) = none) :
    ((tree.alloc data).1.get? id).bind link = (tree.get? id).bind link := by
  rw [get?_alloc]
  split
  · have outside : tree.get? id = none :=
      get?_eq_none_iff.mpr (Nat.le_of_eq (Eq.symm ‹_›))
    rw [outside, Option.bind_some, absent, Option.bind_none]
  · rfl

@[simp] theorem parent?_alloc : (tree.alloc data).1.parent? id = tree.parent? id :=
  bind_get?_alloc rfl

@[simp] theorem next?_alloc : (tree.alloc data).1.next? id = tree.next? id :=
  bind_get?_alloc rfl

@[simp] theorem previous?_alloc : (tree.alloc data).1.previous? id = tree.previous? id :=
  bind_get?_alloc rfl

@[simp] theorem children_alloc : (tree.alloc data).1.children id = tree.children id := by
  rw [children, children, get?_alloc]
  split
  · have outside : tree.get? id = none :=
      get?_eq_none_iff.mpr (Nat.le_of_eq (Eq.symm ‹_›))
    rw [outside]
    rfl
  · rfl

@[simp] theorem data?_alloc :
    (tree.alloc data).1.data? id =
      if id = tree.size then some data else tree.data? id := by
  rw [data?, get?_alloc]
  split
  · rfl
  · rfl

/-! ## Changing a node -/

@[simp] theorem get?_modify {change : Node → Node} :
    (tree.modify id change).get? other =
      if id = other then (tree.get? other).map change else tree.get? other := by
  rw [get?, modify, Array.getElem?_modify]
  rfl

@[simp] theorem size_modify {change : Node → Node} :
    (tree.modify id change).size = tree.size :=
  Array.size_modify

/-! ## Appending a node -/

/-- A node with the links that it has once `child` is appended to `parent`. -/
def relinked (tree : Tree) (parent child id : NodeId) (node : Node) : Node where
  data := node.data
  parent := if id = child then some parent else node.parent
  children := if id = parent then node.children ++ [child] else node.children
  next :=
    if (tree.children parent).getLast? = some id then some child else node.next
  previous :=
    if id = child then (tree.children parent).getLast?.or node.previous
    else node.previous

@[simp] theorem get?_attach :
    (tree.attach parent child).get? id =
      (tree.get? id).map (tree.relinked parent child id) := by
  cases found : tree.get? id with
  | none =>
      unfold attach
      cases (tree.children parent).getLast? with
      | none => simp [found]
      | some last => simp [found]
  | some node =>
      unfold attach
      cases last : (tree.children parent).getLast? with
      | none =>
          simp only [get?_modify, found, Option.map_some, relinked, last]
          by_cases isParent : parent = id <;> by_cases isChild : child = id <;>
            simp [isParent, isChild, eq_comm (a := id)]
      | some sibling =>
          simp only [get?_modify, found, Option.map_some, relinked, last]
          by_cases isParent : parent = id <;> by_cases isChild : child = id <;>
            by_cases isLast : sibling = id <;>
              simp [isParent, isChild, isLast, eq_comm (a := id)]

@[simp] theorem size_attach : (tree.attach parent child).size = tree.size := by
  unfold attach
  cases (tree.children parent).getLast? with
  | none => simp
  | some last => simp

@[simp] theorem data?_attach : (tree.attach parent child).data? id = tree.data? id := by
  rw [data?, get?_attach, Option.map_map]
  rfl

theorem children_attach (inTree : parent < tree.size) :
    (tree.attach parent child).children id =
      if id = parent then tree.children parent ++ [child]
      else tree.children id := by
  rw [children, get?_attach]
  by_cases isParent : id = parent
  · subst id
    obtain ⟨node, found⟩ :=
      Option.isSome_iff_exists.mp (isSome_get?_iff.mpr inTree)
    simp [children, found, relinked]
  · simp [isParent, children, Function.comp_def, relinked]

theorem parent?_attach (inTree : child < tree.size) :
    (tree.attach parent child).parent? id =
      if id = child then some parent else tree.parent? id := by
  rw [parent?, get?_attach]
  by_cases isChild : id = child
  · subst id
    obtain ⟨node, found⟩ :=
      Option.isSome_iff_exists.mp (isSome_get?_iff.mpr inTree)
    simp [found, relinked]
  · have kept : Node.parent ∘ tree.relinked parent child id = Node.parent := by
      funext node
      simp [relinked, isChild]
    rw [if_neg isChild, parent?, Option.bind_map, kept]

theorem next?_attach (inTree : id < tree.size) :
    (tree.attach parent child).next? id =
      if (tree.children parent).getLast? = some id then some child
      else tree.next? id := by
  obtain ⟨node, found⟩ := Option.isSome_iff_exists.mp (isSome_get?_iff.mpr inTree)
  rw [next?, next?, get?_attach, found]
  rfl

theorem previous?_attach (inTree : id < tree.size) :
    (tree.attach parent child).previous? id =
      if id = child then (tree.children parent).getLast?.or (tree.previous? id)
      else tree.previous? id := by
  obtain ⟨node, found⟩ := Option.isSome_iff_exists.mp (isSome_get?_iff.mpr inTree)
  rw [previous?, previous?, get?_attach, found]
  rfl

end Tree

end TreeSelectors
