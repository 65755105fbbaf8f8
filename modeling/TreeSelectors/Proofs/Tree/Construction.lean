import TreeSelectors.Proofs.Tree.Links

/-!
# Trees that are built call by call

A tree grows by calls: a node is made, a node is appended to another one, or a new node
is appended at once.  No call changes what a node is, and an appended node takes only
its new parent and the last child there along.  As long as only free nodes are
appended, the tree stays linked, in whatever order its parts are put together.
-/

namespace TreeSelectors

/-- The nodes that a node is linked with. -/
def Node.links (node : Node) : List NodeId :=
  node.parent.toList ++ node.children ++ node.next.toList ++ node.previous.toList

namespace Tree

/-- A call that makes a node or links nodes. -/
inductive Call where
  | alloc (data : NodeData)
  | append (parent child : NodeId)
  | appendElement (parent : NodeId) (tagName : String) (attributes : Attributes)
  | appendText (parent : NodeId) (content : String)

/-- The tree after a call, unless the call names a node outside of the tree. -/
def call? (tree : Tree) : Call → Option Tree
  | .alloc data => some (tree.alloc data).1
  | .append parent child => tree.append? parent child
  | .appendElement parent tagName attributes =>
      (tree.appendElement? parent tagName attributes).map Prod.fst
  | .appendText parent content => (tree.appendText? parent content).map Prod.fst

/-- A node that may be appended to another one. -/
structure Free (tree : Tree) (parent child : NodeId) : Prop where
  orphan : tree.parent? child = none
  different : child ≠ parent
  notAbove : ¬ tree.forest.Above child parent

/-- A node on top is free for another one on top. -/
theorem Free.of_orphans {tree : Tree} {parent child : NodeId}
    (own : tree.parent? child = none) (top : tree.parent? parent = none)
    (different : child ≠ parent) : tree.Free parent child where
  orphan := own
  different := different
  notAbove := by
    intro above
    obtain ⟨_, link, -⟩ := Forest.Above.parent_iff.mp above
    cases top.symm.trans link

/-- Whether the node that a call appends is free when it is appended. -/
def Allows (tree : Tree) : Call → Prop
  | .alloc _ => True
  | .append parent child => tree.Free parent child
  | .appendElement parent tagName attributes =>
      (tree.alloc (.element ⟨tagName, attributes⟩)).1.Free parent tree.size
  | .appendText parent content =>
      (tree.alloc (.text content)).1.Free parent tree.size

/-- The nodes of a tree whose links a call may change: those that it names, and the last
child of the parent that it names. -/
def touched (tree : Tree) : Call → List NodeId
  | .alloc _ => []
  | .append parent child =>
      parent :: child :: (tree.children parent).getLast?.toList
  | .appendElement parent _ _ | .appendText parent _ =>
      parent :: (tree.children parent).getLast?.toList

/-- `start.Grows tree`: some calls, each of them allowed, lead from one tree to the
other. -/
inductive Grows (start : Tree) : Tree → Prop where
  | start : Grows start start
  | call {tree grown : Tree} (call : Call) :
      Grows start tree → tree.Allows call → tree.call? call = some grown →
      Grows start grown

variable {tree grown : Tree} {parent child id : NodeId} {data : NodeData}

theorem append?_eq_some_iff :
    tree.append? parent child = some grown ↔
      (parent < tree.size ∧ child < tree.size) ∧ tree.attach parent child = grown := by
  rw [append?, Option.ite_none_right_eq_some, Option.some.injEq]

theorem appendNew?_fst_eq_some_iff :
    (tree.appendNew? parent data).map Prod.fst = some grown ↔
      (tree.alloc data).1.append? parent tree.size = some grown := by
  rw [appendNew?, Option.map_map]
  exact Option.map_id ▸ Iff.rfl

/-! ## What a call leaves as it is -/

/-- A node keeps its links when it is neither appended nor the new parent nor the last
child there. -/
theorem get?_attach_of_ne (notParent : id ≠ parent) (notChild : id ≠ child)
    (notLast : id ∉ (tree.children parent).getLast?.toList) :
    (tree.attach parent child).get? id = tree.get? id := by
  have notLast : (tree.children parent).getLast? ≠ some id := by
    simpa [Option.mem_toList, Option.mem_def] using notLast
  rw [get?_attach]
  cases found : tree.get? id with
  | none => rfl
  | some node => simp [relinked, notParent, notChild, notLast]

private theorem get?_alloc_of_lt (inside : id < tree.size) :
    (tree.alloc data).1.get? id = tree.get? id := by
  rw [get?_alloc, if_neg (Nat.ne_of_lt inside)]

/-- Appending a new node keeps what the nodes are, and the links of all but two. -/
theorem appendNew?_frame
    (answered : (tree.appendNew? parent data).map Prod.fst = some grown)
    (inside : id < tree.size) :
    grown.data? id = tree.data? id ∧
      (id ∉ parent :: (tree.children parent).getLast?.toList →
        grown.get? id = tree.get? id) := by
  obtain ⟨-, rfl⟩ :=
    append?_eq_some_iff.mp (appendNew?_fst_eq_some_iff.mp answered)
  constructor
  · rw [data?_attach, data?_alloc, if_neg (Nat.ne_of_lt inside)]
  · intro untouched
    rw [List.mem_cons, not_or] at untouched
    obtain ⟨notParent, notLast⟩ := untouched
    rw [get?_attach_of_ne notParent (Nat.ne_of_lt inside) (by rwa [children_alloc]),
      get?_alloc_of_lt inside]

/-- A call changes no node but for the links of the nodes that it touches. -/
theorem call?_frame {call : Call} (answered : tree.call? call = some grown)
    (inside : id < tree.size) :
    grown.data? id = tree.data? id ∧
      (id ∉ tree.touched call → grown.get? id = tree.get? id) := by
  cases call with
  | alloc data =>
      cases answered
      have same := @get?_alloc_of_lt tree id data inside
      exact ⟨by rw [data?, same, data?], fun _ => same⟩
  | append parent child =>
      obtain ⟨-, rfl⟩ := append?_eq_some_iff.mp answered
      refine ⟨data?_attach, fun untouched => ?_⟩
      simp only [touched, List.mem_cons, not_or] at untouched
      exact get?_attach_of_ne untouched.1 untouched.2.1 untouched.2.2
  | appendElement parent tagName attributes => exact appendNew?_frame answered inside
  | appendText parent content => exact appendNew?_frame answered inside

/-! ## What a run of calls keeps -/

namespace Linked

theorem append? (linked : tree.Linked) (free : tree.Free parent child)
    (answered : tree.append? parent child = some grown) : grown.Linked := by
  obtain ⟨⟨parentInTree, childInTree⟩, rfl⟩ := append?_eq_some_iff.mp answered
  exact linked.attach parentInTree childInTree free.orphan free.different free.notAbove

/-- An allowed call keeps a tree linked. -/
theorem call? (linked : tree.Linked) {call : Call} (allowed : tree.Allows call)
    (answered : tree.call? call = some grown) : grown.Linked := by
  cases call with
  | alloc data =>
      cases answered
      exact linked.alloc data
  | append parent child => exact linked.append? allowed answered
  | appendElement parent tagName attributes =>
      exact (linked.alloc _).append? allowed (appendNew?_fst_eq_some_iff.mp answered)
  | appendText parent content =>
      exact (linked.alloc _).append? allowed (appendNew?_fst_eq_some_iff.mp answered)

theorem grows (linked : tree.Linked) (grows : tree.Grows grown) : grown.Linked := by
  induction grows with
  | start => exact linked
  | call _ _ allowed answered induction => exact induction.call? allowed answered

/-- A new node is free, whichever node of the tree it is appended to. -/
theorem free_alloc (linked : tree.Linked) (inside : parent < tree.size) :
    (tree.alloc data).1.Free parent tree.size where
  orphan := by
    rw [parent?_alloc, parent?, get?_eq_none_iff.mpr (Nat.le_refl _), Option.bind_none]
  different := Nat.ne_of_gt inside
  notAbove := by
    -- The new node has no children, so it is above no other node.
    intro above
    obtain ⟨child, link, -⟩ := Forest.Above.child_iff.mp above
    have known : tree.parent? child = some tree.size := parent?_alloc.symm.trans link
    exact Nat.lt_irrefl _ (linked.parent_lt known)

/-- Every link leads to a node of the tree. -/
theorem links_lt (linked : tree.Linked) {node : Node} (found : tree.get? id = some node)
    {other : NodeId} (member : other ∈ node.links) : other < tree.size := by
  have siblingOf {sibling : NodeId}
      (link : tree.next? id = some sibling ∨ tree.previous? id = some sibling) :
      sibling < tree.size := by
    cases own : tree.parent? id with
    | none =>
        obtain ⟨noNext, noPrevious⟩ := linked.orphan own
        rw [noNext, noPrevious] at link
        simp at link
    | some parent =>
        obtain ⟨front, back, split⟩ :=
          List.append_of_mem (linked.mem_children_iff.mpr own)
        obtain ⟨next, previous⟩ := linked.siblings split
        have among : sibling ∈ tree.children parent := by
          rw [split]
          rcases link with link | link
          · have last := List.mem_of_head? (next.symm.trans link)
            simp [last]
          · have last := List.mem_of_getLast? (previous.symm.trans link)
            simp [last]
        exact lt_size_of_parent? (linked.mem_children_iff.mp among)
  simp only [Node.links, List.mem_append, Option.mem_toList] at member
  rcases member with ((isParent | isChild) | isNext) | isPrevious
  · have own : tree.parent? id = some other := by
      simp [parent?, found, Option.mem_def.mp isParent]
    exact linked.parent_lt own
  · have among : other ∈ tree.children id := by simp [children, found, isChild]
    exact lt_size_of_parent? (linked.mem_children_iff.mp among)
  · exact siblingOf (Or.inl (by simp [next?, found, Option.mem_def.mp isNext]))
  · exact siblingOf (Or.inr (by simp [previous?, found, Option.mem_def.mp isPrevious]))

/-- The siblings next to a child are those at the places next to its own. -/
theorem siblings_getElem? (linked : tree.Linked) {place : Nat}
    (found : (tree.children parent)[place]? = some child) :
    tree.next? child = (tree.children parent)[place + 1]? ∧
      tree.previous? child =
        if place = 0 then none else (tree.children parent)[place - 1]? := by
  obtain ⟨inside, rfl⟩ := List.getElem?_eq_some_iff.mp found
  have split : tree.children parent = (tree.children parent).take place ++
      (tree.children parent)[place] :: (tree.children parent).drop (place + 1) := by
    rw [← List.drop_eq_getElem_cons inside, List.take_append_drop]
  obtain ⟨next, previous⟩ := linked.siblings split
  refine ⟨by rw [next, List.head?_drop], ?_⟩
  rw [previous, List.getLast?_take]
  split
  · rfl
  · have before : place - 1 < (tree.children parent).length := by omega
    rw [List.getElem?_eq_getElem before, Option.some_or]

end Linked

/-- However a tree is put together from the document alone, by calls that append only
free nodes, its links agree: they lead to nodes of the tree, a node is among the
children of its parent, once, and of no other node, the children next to a child are
its siblings, a node without a parent has none, and no way from parent to parent is
endless.  Whatever call comes next keeps what each node is, and the links of all nodes
that it does not touch. -/
theorem Grows.links_agree {tree : Tree} (grows : Tree.empty.Grows tree) :
    (∀ id node, tree.get? id = some node → ∀ other ∈ node.links, other < tree.size) ∧
      (∀ child parent,
        child ∈ tree.children parent ↔ tree.parent? child = some parent) ∧
      (∀ parent, (tree.children parent).Nodup) ∧
      (∀ parent place child, (tree.children parent)[place]? = some child →
        tree.next? child = (tree.children parent)[place + 1]? ∧
          tree.previous? child =
            if place = 0 then none else (tree.children parent)[place - 1]?) ∧
      (∀ child, tree.parent? child = none →
        tree.next? child = none ∧ tree.previous? child = none) ∧
      tree.forest.Acyclic ∧
      ∀ call grown, tree.call? call = some grown → ∀ id < tree.size,
        grown.data? id = tree.data? id ∧
          (id ∉ tree.touched call → grown.get? id = tree.get? id) := by
  have linked := Linked.empty.grows grows
  refine ⟨?inRange, ?children, linked.children_nodup, ?siblings, ?orphans,
    linked.acyclic, ?frame⟩
  case inRange => exact fun _ _ found _ member => linked.links_lt found member
  case children => exact fun _ _ => linked.mem_children_iff
  case siblings => exact fun _ _ _ found => linked.siblings_getElem? found
  case orphans => exact fun _ own => linked.orphan own
  case frame => exact fun _ _ answered _ inside => call?_frame answered inside

/-- A list of two items, the second of which is a comment. -/
def listTree : Tree :=
  ⟨#[⟨.document, none, [1], none, none⟩,
    ⟨.element ⟨"ul", .empty⟩, some 0, [2, 4], none, none⟩,
    ⟨.element ⟨"li", .empty⟩, some 1, [3], some 4, none⟩,
    ⟨.text "first", some 2, [], none, none⟩,
    ⟨.comment "last", some 1, [], none, some 2⟩]⟩

/-- The list is put together before it is appended to the document. -/
theorem grows_listTree : Tree.empty.Grows listTree := by
  have ul : Tree.empty.Grows _ :=
    .call (.alloc (.element ⟨"ul", .empty⟩)) .start trivial rfl
  have item := ul.call (.appendElement 1 "li" .empty)
    ((Linked.empty.grows ul).free_alloc (by decide)) rfl
  have text := item.call (.appendText 2 "first")
    ((Linked.empty.grows item).free_alloc (by decide)) rfl
  have comment := text.call (.alloc (.comment "last")) trivial rfl
  have items := comment.call (.append 1 4)
    (.of_orphans (by decide) (by decide) (by decide)) rfl
  exact items.call (.append 0 1)
    (.of_orphans (by decide) (by decide) (by decide)) rfl

theorem Grows.links_agree_listTree :
    Tree.empty.Grows listTree ∧ listTree.next? 2 = some 4 ∧
      listTree.previous? 4 = some 2 ∧ (4 ∈ listTree.children 1) ∧
      (4 ∉ listTree.touched (.append 0 2)) := by
  obtain ⟨-, children, -, siblings, -⟩ := links_agree grows_listTree
  exact ⟨grows_listTree, (siblings 1 0 2 rfl).1, (siblings 1 1 4 rfl).2,
    (children 4 1).mpr rfl, by decide⟩

end Tree

end TreeSelectors
