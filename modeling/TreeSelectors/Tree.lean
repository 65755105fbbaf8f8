import TreeSelectors.Text.Ascii
import TreeSelectors.Tree.Attributes
import TreeSelectors.Unfolding

/-!
# Trees

A tree keeps its nodes in a row, in the order in which they were made; the
place of a node is its name for good.  The document stands at place zero.  Each
node knows its parent, its children and the siblings next to it.
-/

namespace TreeSelectors

/-- The place of a node in its tree. -/
abbrev NodeId := Nat

/-- What an element is, apart from its place in a tree. -/
structure Element where
  tagName : String
  attributes : Attributes
deriving DecidableEq

namespace Element

def id? (element : Element) : Option String :=
  element.attributes.get? "id"

/-- Whether a name is one of the words of the `class` attribute. -/
def hasClass (element : Element) (name : String) : Bool :=
  (element.attributes.get? "class").any (Text.hasWord · name)

end Element

/-- What a node is, apart from its place in a tree. -/
inductive NodeData where
  | document
  | element (element : Element)
  | text (content : String)
  | comment (content : String)
deriving DecidableEq

structure Node where
  data : NodeData
  parent : Option NodeId
  children : List NodeId
  next : Option NodeId
  previous : Option NodeId
deriving DecidableEq

/-- A node without links. -/
def Node.alone (data : NodeData) : Node :=
  ⟨data, none, [], none, none⟩

structure Tree where
  nodes : Array Node
deriving DecidableEq

namespace Tree

/-- The place of the document. -/
def root : NodeId :=
  0

/-- The tree of the document alone. -/
def empty : Tree :=
  ⟨#[.alone .document]⟩

def size (tree : Tree) : Nat :=
  tree.nodes.size

def get? (tree : Tree) (id : NodeId) : Option Node :=
  tree.nodes[id]?

def parent? (tree : Tree) (id : NodeId) : Option NodeId :=
  (tree.get? id).bind Node.parent

def next? (tree : Tree) (id : NodeId) : Option NodeId :=
  (tree.get? id).bind Node.next

def previous? (tree : Tree) (id : NodeId) : Option NodeId :=
  (tree.get? id).bind Node.previous

/-- The children of a node; a node outside of the tree has none. -/
def children (tree : Tree) (id : NodeId) : List NodeId :=
  ((tree.get? id).map Node.children).getD []

def element? (tree : Tree) (id : NodeId) : Option Element :=
  match (tree.get? id).map Node.data with
  | some (.element element) => some element
  | _ => none

def text? (tree : Tree) (id : NodeId) : Option String :=
  match (tree.get? id).map Node.data with
  | some (.text content) => some content
  | _ => none

/-! ## Growing -/

/-- Makes a node without links, and tells its place. -/
def alloc (tree : Tree) (data : NodeData) : Tree × NodeId :=
  (⟨tree.nodes.push (.alone data)⟩, tree.nodes.size)

/-- Changes a node. -/
def modify (tree : Tree) (id : NodeId) (change : Node → Node) : Tree :=
  ⟨tree.nodes.modify id change⟩

/-- Makes a node the last child of another one.  Its links to a former parent
and to former siblings stay, unless the new ones take their place. -/
def attach (tree : Tree) (parent child : NodeId) : Tree :=
  let last := (tree.children parent).getLast?
  let tree := tree.modify parent fun node =>
    { node with children := node.children ++ [child] }
  let tree := tree.modify child fun node => { node with parent := some parent }
  match last with
  | none => tree
  | some previous =>
      let tree := tree.modify previous fun node =>
        { node with next := some child }
      tree.modify child fun node => { node with previous := some previous }

/-- Makes a node the last child of another one, if both are in the tree. -/
def append? (tree : Tree) (parent child : NodeId) : Option Tree :=
  if parent < tree.size ∧ child < tree.size then
    some (tree.attach parent child)
  else
    none

/-- Makes a node as the last child of another one. -/
def appendNew? (tree : Tree) (parent : NodeId) (data : NodeData) :
    Option (Tree × NodeId) :=
  let (grown, id) := tree.alloc data
  (grown.append? parent id).map fun tree => (tree, id)

def appendElement? (tree : Tree) (parent : NodeId) (tagName : String)
    (attributes : Attributes) : Option (Tree × NodeId) :=
  tree.appendNew? parent (.element ⟨tagName, attributes⟩)

def appendText? (tree : Tree) (parent : NodeId) (content : String) :
    Option (Tree × NodeId) :=
  tree.appendNew? parent (.text content)

/-! ## Walks -/

/-- The nodes along a link, at most `steps` of them. -/
def follow (link : NodeId → Option NodeId) :
    (steps : Nat) → Option NodeId → List NodeId
  | 0, _ => []
  | _ + 1, none => []
  | steps + 1, some id => id :: follow link steps (link id)

/-- The nodes above a node, the nearest first. -/
def ancestors (tree : Tree) (id : NodeId) : List NodeId :=
  follow tree.parent? tree.size (tree.parent? id)

/-- The siblings in front of a node, the nearest first. -/
def precedingSiblings (tree : Tree) (id : NodeId) : List NodeId :=
  follow tree.previous? tree.size (tree.previous? id)

/-- The siblings after a node, the nearest first. -/
def followingSiblings (tree : Tree) (id : NodeId) : List NodeId :=
  follow tree.next? tree.size (tree.next? id)

/-- The nodes on a stack and everything below them.  Next comes the first node of the
stack, which gives way to its children; each node stands with the number of levels that
the walk may go down from it. -/
def unfold (tree : Tree) (stack : List (Nat × NodeId)) : List NodeId :=
  match stack with
  | [] => []
  -- Only a walk in a circle comes so deep.
  | (0, _) :: _ => []
  | (levels + 1, id) :: rest =>
      id :: tree.unfold ((tree.children id).map (levels, ·) ++ rest)
termination_by Unfolds.wellFounded.wrap (stack.map Prod.fst)
decreasing_by exact .of_children (tree.children id) levels rest

/-- The nodes below a node in document order.  No path downwards without a circle is
longer than the tree. -/
def descendants (tree : Tree) (id : NodeId) : List NodeId :=
  tree.unfold ((tree.children id).map (tree.size, ·))

end Tree

end TreeSelectors
