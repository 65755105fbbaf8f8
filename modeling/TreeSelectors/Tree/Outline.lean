import TreeSelectors.Tree

/-!
# Outlines

An outline is a tree written as nested nodes.  `Tree.ofOutline` makes the tree
of an outline; its nodes stand in document order.  `Tree.outline?` reads off
the outline of a node and everything below it.
-/

namespace TreeSelectors

inductive Outline where
  | document (children : List Outline)
  | element (element : Element) (children : List Outline)
  | text (content : String)
  | comment (content : String)

namespace Outline

/-! ## Equality -/

mutual

def same : Outline → Outline → Bool
  | .document left, .document right => sameAll left right
  | .element left leftChildren, .element right rightChildren =>
      left = right && sameAll leftChildren rightChildren
  | .text left, .text right => left = right
  | .comment left, .comment right => left = right
  | _, _ => false

def sameAll : List Outline → List Outline → Bool
  | [], [] => true
  | left :: lefts, right :: rights => left.same right && sameAll lefts rights
  | _, _ => false

end

mutual

@[simp] theorem same_iff (left right : Outline) :
    left.same right = true ↔ left = right := by
  cases left with
  | document children => cases right <;> simp [same, sameAll_iff children]
  | element element children => cases right <;> simp [same, sameAll_iff children]
  | text content => cases right <;> simp [same]
  | comment content => cases right <;> simp [same]
termination_by structural left

@[simp] theorem sameAll_iff (left right : List Outline) :
    sameAll left right = true ↔ left = right := by
  cases left with
  | nil => cases right <;> simp [sameAll]
  | cons first rest =>
      cases right with
      | nil => simp [sameAll]
      | cons second others => simp [sameAll, same_iff first, sameAll_iff rest]
termination_by structural left

end

instance : DecidableEq Outline := fun left right =>
  decidable_of_iff _ (same_iff left right)

end Outline

/-! ## Making and reading off trees -/

namespace Tree

/-- Makes a node as the last child of another one that is in the tree. -/
def attachNew (tree : Tree) (parent : NodeId) (data : NodeData) :
    Tree × NodeId :=
  let (grown, id) := tree.alloc data
  (grown.attach parent id, id)

mutual

/-- Adds the nodes of an outline below a node.  A document cannot stand below
another node. -/
def insert? (tree : Tree) (parent : NodeId) : Outline → Option Tree
  | .document _ => none
  | .element element children =>
      let grown := tree.attachNew parent (.element element)
      insertAll? grown.1 grown.2 children
  | .text content => some (tree.attachNew parent (.text content)).1
  | .comment content => some (tree.attachNew parent (.comment content)).1

/-- Adds the nodes of outlines below a node, one after the other. -/
def insertAll? (tree : Tree) (parent : NodeId) : List Outline → Option Tree
  | [] => some tree
  | outline :: rest =>
      match insert? tree parent outline with
      | some grown => insertAll? grown parent rest
      | none => none

end

/-- The tree of an outline, unless it holds a document below another node.  An
outline that is no document becomes the only child of one. -/
def ofOutline : Outline → Option Tree
  | .document children => insertAll? empty root children
  | outline => insert? empty root outline

/-- The outline of a node and of what is below it, down to `levels` levels. -/
def outlineWithin (tree : Tree) : (levels : Nat) → NodeId → Option Outline
  | 0, _ => none
  | levels + 1, id =>
      (tree.get? id).map fun node =>
        let children := node.children.filterMap (tree.outlineWithin levels)
        match node.data with
        | .document => .document children
        | .element element => .element element children
        | .text content => .text content
        | .comment content => .comment content

/-- The outline of a node and of everything below it. -/
def outline? (tree : Tree) (id : NodeId) : Option Outline :=
  tree.outlineWithin tree.size id

end Tree

end TreeSelectors
