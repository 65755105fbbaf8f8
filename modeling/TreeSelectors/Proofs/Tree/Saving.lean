import TreeSelectors.Proofs.Tree.Listing
import TreeSelectors.Proofs.Tree.Loading
import TreeSelectors.Proofs.Tree.Walks

/-!
# Saved trees

A loaded tree can be saved again.  Its nodes were made in document order, so that the
places count the nodes of the outline, and at each place the outline is read off as
it was written.
-/

namespace TreeSelectors

namespace Tree

open Outline

variable {tree middle grown : Tree} {parent : NodeId}

/-! ## Adding outlines -/

/-- What adding outlines below a node changes: their nodes come after all others, and
the topmost ones are the new last children of the node. -/
structure Adds (tree : Tree) (parent : NodeId) (outlines : List Outline)
    (grown : Tree) : Prop where
  size_eq : grown.size = tree.size + (preorderAll outlines).length
  lists : grown.Lists tree.size (preorderAll outlines)
  data?_eq {id : NodeId} : id < tree.size → grown.data? id = tree.data? id
  children_eq {id : NodeId} : id < tree.size → grown.children id =
    tree.children id ++ if id = parent then places tree.size outlines else []

theorem children_attachNew (inTree : parent < tree.size) (data : NodeData)
    (id : NodeId) : (tree.attachNew parent data).1.children id =
      if id = parent then tree.children parent ++ [tree.size]
      else tree.children id := by
  have inAlloc : parent < (tree.alloc data).1.size := by
    rw [size_alloc]
    exact Nat.lt_succ_of_lt inTree
  rw [attachNew_eq, children_attach inAlloc, children_alloc, children_alloc]

namespace Adds

theorem nil (tree : Tree) (parent : NodeId) : tree.Adds parent [] tree where
  size_eq := rfl
  lists := by
    intro place outline found
    cases found
  data?_eq _ := rfl
  children_eq _ := by
    rw [places, ite_self, List.append_nil]

theorem append {front back : List Outline} (inTree : parent < tree.size)
    (first : tree.Adds parent front middle) (second : middle.Adds parent back grown) :
    tree.Adds parent (front ++ back) grown where
  size_eq := by
    rw [preorderAll_append, List.length_append, second.size_eq, first.size_eq,
      Nat.add_assoc]
  lists := by
    rw [preorderAll_append, Lists.append_iff, ← first.size_eq]
    refine ⟨fun place outline found => ?_, second.lists⟩
    obtain ⟨inFront, -⟩ := List.getElem?_eq_some_iff.mp found
    have inMiddle : tree.size + place < middle.size := by
      rw [first.size_eq]
      exact Nat.add_lt_add_left inFront _
    -- The nodes added first keep their children: none of them is the parent.
    have notParent : tree.size + place ≠ parent :=
      Nat.ne_of_gt (Nat.lt_add_right place inTree)
    rw [second.data?_eq inMiddle, second.children_eq inMiddle, if_neg notParent,
      List.append_nil]
    exact first.lists place outline found
  data?_eq {id} inside := by
    have inMiddle : id < middle.size := by
      rw [first.size_eq]
      exact Nat.lt_add_right _ inside
    rw [second.data?_eq inMiddle, first.data?_eq inside]
  children_eq {id} inside := by
    have inMiddle : id < middle.size := by
      rw [first.size_eq]
      exact Nat.lt_add_right _ inside
    rw [second.children_eq inMiddle, first.children_eq inside, first.size_eq,
      places_append]
    split
    · rw [List.append_assoc]
    · rw [List.append_nil]

/-- An outline is added by making its topmost node and adding those below. -/
theorem node {outline : Outline} (inTree : parent < tree.size)
    (below : (tree.attachNew parent outline.data).1.Adds tree.size
      outline.children grown) : tree.Adds parent [outline] grown where
  size_eq := by
    rw [preorderAll_singleton, preorder_eq, below.size_eq, size_attachNew,
      List.length_cons, Nat.add_assoc, Nat.add_comm 1]
  lists := by
    have new : tree.size < (tree.attachNew parent outline.data).1.size := by
      rw [size_attachNew]
      exact Nat.lt_succ_self _
    have outside : tree.children tree.size = [] := by
      rw [children, get?_eq_none_iff.mpr (Nat.le_refl _)]
      rfl
    rw [preorderAll_singleton, preorder_eq, Lists.cons_iff]
    refine ⟨⟨?_, ?_⟩, size_attachNew tree parent outline.data ▸ below.lists⟩
    · rw [below.data?_eq new, attachNew_eq, data?_attach, data?_alloc, if_pos rfl]
    · rw [below.children_eq new, children_attachNew inTree,
        if_neg (Nat.ne_of_gt inTree), outside, if_pos rfl, size_attachNew]
      rfl
  data?_eq {id} inside := by
    have extended := extends_attachNew tree parent outline.data
    rw [below.data?_eq (Nat.lt_of_lt_of_le inside extended.1), extended.2 id inside]
  children_eq {id} inside := by
    have extended := extends_attachNew tree parent outline.data
    rw [below.children_eq (Nat.lt_of_lt_of_le inside extended.1),
      children_attachNew inTree, if_neg (Nat.ne_of_lt inside), List.append_nil]
    split
    · subst id
      rfl
    · rw [List.append_nil]

end Adds

/-- Adding outlines below a node fails if a document is among their nodes, and adds them
otherwise. -/
def Answers (tree : Tree) (parent : NodeId) (outlines : List Outline) :
    Option Tree → Prop
  | none => ∃ inner ∈ preorderAll outlines, inner.isDocument = true
  | some grown => tree.Adds parent outlines grown ∧
      ∀ inner ∈ preorderAll outlines, inner.isDocument = false

namespace Answers

theorem append {front back : List Outline} {result : Option Tree}
    {next : Tree → Option Tree} (inTree : parent < tree.size)
    (first : tree.Answers parent front result)
    (continues : ∀ middle : Tree, parent < middle.size →
      middle.Answers parent back (next middle)) :
    tree.Answers parent (front ++ back) (result.bind next) := by
  cases result with
  | none =>
      obtain ⟨inner, member, isDocument⟩ := first
      refine ⟨inner, ?_, isDocument⟩
      rw [preorderAll_append]
      exact List.mem_append_left _ member
  | some middle =>
      obtain ⟨added, plain⟩ := first
      have inMiddle : parent < middle.size := by
        rw [added.size_eq]
        exact Nat.lt_add_right _ inTree
      have second := continues middle inMiddle
      rw [Option.bind_some]
      cases further : next middle with
      | none =>
          rw [further] at second
          obtain ⟨inner, member, isDocument⟩ := second
          refine ⟨inner, ?_, isDocument⟩
          rw [preorderAll_append]
          exact List.mem_append_right _ member
      | some grown =>
          rw [further] at second
          refine ⟨added.append inTree second.1, ?_⟩
          rw [preorderAll_append, List.forall_mem_append]
          exact ⟨plain, second.2⟩

theorem node {outline : Outline} {result : Option Tree} (inTree : parent < tree.size)
    (plain : outline.isDocument = false)
    (below : (tree.attachNew parent outline.data).1.Answers tree.size
      outline.children result) : tree.Answers parent [outline] result := by
  cases result with
  | none =>
      obtain ⟨inner, member, isDocument⟩ := below
      refine ⟨inner, ?_, isDocument⟩
      rw [preorderAll_singleton, preorder_eq]
      exact List.mem_cons_of_mem _ member
  | some grown =>
      refine ⟨.node inTree below.1, ?_⟩
      rw [preorderAll_singleton, preorder_eq, List.forall_mem_cons]
      exact ⟨plain, below.2⟩

end Answers

theorem insert?_eq (tree : Tree) (parent : NodeId) (outline : Outline) :
    tree.insert? parent outline =
      if outline.isDocument then none
      else (tree.attachNew parent outline.data).1.insertAll? tree.size
        outline.children := by
  cases outline <;>
    simp [insert?, insertAll?, isDocument, data, Outline.children, attachNew_eq]

theorem insertAll?_cons (tree : Tree) (parent : NodeId) (outline : Outline)
    (rest : List Outline) :
    tree.insertAll? parent (outline :: rest) =
      (tree.insert? parent outline).bind (·.insertAll? parent rest) := by
  rw [insertAll?]
  cases tree.insert? parent outline <;> rfl

theorem answers_insert :
    (∀ (outline : Outline) (tree : Tree) (parent : NodeId), parent < tree.size →
      tree.Answers parent [outline] (tree.insert? parent outline)) ∧
    ∀ (outlines : List Outline) (tree : Tree) (parent : NodeId), parent < tree.size →
      tree.Answers parent outlines (tree.insertAll? parent outlines) := by
  apply forall_of_children
  case node =>
    intro outline below tree parent inTree
    rw [insert?_eq]
    split
    case isTrue isDocument =>
      refine ⟨outline, ?_, isDocument⟩
      rw [preorderAll_singleton, preorder_eq]
      exact List.mem_cons_self
    case isFalse plain =>
      have new : tree.size < (tree.attachNew parent outline.data).1.size := by
        rw [size_attachNew]
        exact Nat.lt_succ_self _
      exact .node inTree (eq_false_of_ne_true plain) (below _ tree.size new)
  case nil =>
    intro tree parent _
    rw [insertAll?]
    exact ⟨.nil tree parent, nofun⟩
  case cons =>
    intro outline rest here others tree parent inTree
    rw [insertAll?_cons]
    exact (here tree parent inTree).append inTree fun middle inMiddle =>
      others middle parent inMiddle

/-! ## The tree of an outline -/

@[simp] theorem insertAll?_singleton (tree : Tree) (parent : NodeId) (outline : Outline) :
    tree.insertAll? parent [outline] = tree.insert? parent outline := by
  rw [insertAll?_cons]
  cases tree.insert? parent outline with
  | none => rfl
  | some grown => rw [Option.bind_some, insertAll?]

theorem ofOutline_eq (outline : Outline) :
    ofOutline outline = empty.insertAll? root outline.enclosed.children := by
  cases outline with
  | document children => rfl
  | element data children => exact (insertAll?_singleton ..).symm
  | text content => exact (insertAll?_singleton ..).symm
  | comment content => exact (insertAll?_singleton ..).symm

private theorem outlineWithin_eq_none {id : NodeId} (outside : tree.get? id = none)
    (levels : Nat) : tree.outlineWithin levels id = none := by
  cases levels with
  | zero => rfl
  | succ levels => rw [outlineWithin, outside, Option.map_none]

/-- A tree that has nothing but the nodes of an outline shows at each place what the
outline has there. -/
theorem Lists.outline?_eq {outline : Outline}
    (lists : tree.Lists root outline.preorder)
    (size : tree.size = outline.preorder.length) (id : NodeId) :
    tree.outline? id = outline.preorder[id]? := by
  cases found : outline.preorder[id]? with
  | none =>
      rw [List.getElem?_eq_none_iff, ← size] at found
      exact outlineWithin_eq_none (get?_eq_none_iff.mpr found) _
  | some inner =>
      have within := preorder_prefix_drop.1 outline id inner found
      have part := lists.of_prefix_drop within
      rw [root, Nat.zero_add] at part
      refine Lists.outlineWithin_eq.1 inner tree.size id part ?_
      rw [size]
      exact within.length_le.trans (by simp)

/-- The nodes of an outline below its document are all that is added to the document
alone. -/
theorem Adds.lists_root {outline : Outline}
    (added : empty.Adds root outline.enclosed.children tree) :
    tree.Lists root outline.enclosed.preorder := by
  have inTree : root < empty.size := Nat.zero_lt_one
  rw [preorder_eq, Lists.cons_iff, added.data?_eq inTree, added.children_eq inTree]
  refine ⟨⟨?_, rfl⟩, added.lists⟩
  cases outline <;> rfl

theorem Adds.descendants_root {outlines : List Outline} (linked : tree.Linked)
    (added : empty.Adds root outlines tree) :
    tree.descendants root = List.range' 1 (preorderAll outlines).length := by
  have below : tree.children root = places 1 outlines :=
    added.children_eq Nat.zero_lt_one
  have listed := linked.descendants_preorder root
  rw [below] at listed
  exact listed.unique (Lists.preorder_range'.2 outlines 1 added.lists)

/-- What is read from a text can be saved again.  A tree is made unless a document
stands below another node.  Its places count the nodes in document order, and from each
place the node and everything below it is read off as it was written. -/
theorem load_outline {text : String} {outline : Outline}
    (decoded : (Json.parse? maxNotationDepth text).bind (Outline.ofJson? false) =
      some outline) :
    (load text = .error .nestedDocument ↔ outline.NestsDocument) ∧
    (¬ outline.NestsDocument →
      ∃ tree, load text = .ok tree ∧
        tree.outline? root = some outline.enclosed ∧
        tree.size = 1 + outline.contents.length ∧
        tree.descendants root = List.range' 1 (tree.size - 1) ∧
        ∀ id, 1 ≤ id → tree.outline? id = outline.contents[id - 1]?) := by
  have answers :=
    answers_insert.2 outline.enclosed.children .empty root Nat.zero_lt_one
  rw [← ofOutline_eq] at answers
  cases made : ofOutline outline with
  | none =>
      rw [made] at answers
      have nests := nestsDocument_iff.mpr answers
      have failed : load text = .error .nestedDocument := by
        rw [load, decoded]
        simp only [made]
      exact ⟨iff_of_true failed nests, fun plain => absurd nests plain⟩
  | some tree =>
      rw [made] at answers
      obtain ⟨added, plain⟩ := answers
      have loaded : load text = .ok tree := by
        rw [load, decoded]
        simp only [made]
      have notNested : ¬ outline.NestsDocument := by
        rw [nestsDocument_iff]
        rintro ⟨inner, member, isDocument⟩
        rw [plain inner member] at isDocument
        cases isDocument
      have contents := contents_eq notNested
      have size : tree.size = 1 + (preorderAll outline.enclosed.children).length :=
        added.size_eq
      have whole : tree.size = outline.enclosed.preorder.length := by
        rw [size, preorder_eq, List.length_cons, Nat.add_comm]
      have saved := added.lists_root.outline?_eq whole
      refine ⟨iff_of_false ?_ notNested, fun _ => ⟨tree, loaded, ?_, ?_, ?_, ?_⟩⟩
      · intro failed
        cases loaded.symm.trans failed
      · rw [saved, preorder_eq]
        rfl
      · rw [contents, size]
      · rw [added.descendants_root (rooted_of_ofOutline made).linked, size,
          Nat.add_sub_cancel_left]
      · intro id first
        obtain ⟨place, rfl⟩ := Nat.exists_eq_add_of_le' first
        rw [saved, contents, preorder_eq, List.getElem?_cons_succ, Nat.add_sub_cancel]

/-- The notation of a list with an item and a comment. -/
def listText : String :=
  "[\"element\",\"ul\",\x7b\"title\":\"b\",\"id\":\"a\"\x7d," ++
    "[[\"element\",\"li\",\x7b\x7d,[[\"text\",\"one\"]]],[\"comment\",\"last\"]]]"

def listOutline : Outline :=
  .element ⟨"ul", .ofList [("id", "a"), ("title", "b")]⟩
    [.element ⟨"li", .empty⟩ [.text "one"], .comment "last"]

/-- The list comes back in a document, and its third node is the text of the item. -/
theorem load_outline_list :
    (Json.parse? maxNotationDepth listText).bind (Outline.ofJson? false) =
        some listOutline ∧
      ∃ tree, load listText = .ok tree ∧
        tree.outline? root = some (.document [listOutline]) ∧
        tree.outline? 3 = some (.text "one") := by
  have decoded : (Json.parse? maxNotationDepth listText).bind
      (Outline.ofJson? false) = some listOutline := by
    decide +kernel
  have plain : ¬ listOutline.NestsDocument := by
    decide +kernel
  obtain ⟨tree, loaded, whole, -, -, parts⟩ := (load_outline decoded).2 plain
  exact ⟨decoded, tree, loaded, whole, parts 3 (by decide)⟩

end Tree

end TreeSelectors
