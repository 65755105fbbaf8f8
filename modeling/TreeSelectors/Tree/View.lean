import TreeSelectors.Tree
import TreeSelectors.TreeView

/-!
# The view of a tree

A tree answers the questions of matching from its nodes and their links.  A
place outside of the tree is an unknown node.
-/

namespace TreeSelectors

namespace Tree

def lookup (tree : Tree) (id : NodeId) : Except ViewError Node :=
  match tree.get? id with
  | some node => .ok node
  | none => .error (.unknownNode (toString id))

/-- The answers that a tree cannot do without. -/
def queries (tree : Tree) : TreeQueries NodeId where
  tagName id := do
    match (← tree.lookup id).data with
    | .element element => return some element.tagName
    | _ => return none
  attributes id := do
    match (← tree.lookup id).data with
    | .element element => return element.attributes.entries
    | _ => return []
  parent id := do return (← tree.lookup id).parent
  children id := do return (← tree.lookup id).children
  text id := do
    match (← tree.lookup id).data with
    | .text content => return some content
    | _ => return none
  longestPath := tree.size + 1

/-- The view of a tree.  Siblings are found along the links between them. -/
def view (tree : Tree) : TreeView NodeId where
  toTreeQueries := tree.queries
  attributeValue id name := do
    match (← tree.lookup id).data with
    | .element element => return element.attributes.get? name
    | _ => return none
  id id := do
    let _ ← tree.lookup id
    return (tree.element? id).bind Element.id?
  hasClass id name := do
    let _ ← tree.lookup id
    return (tree.element? id).any (·.hasClass name)
  previousSiblings id := do
    let _ ← tree.lookup id
    return tree.precedingSiblings id
  nextSiblings id := do
    let _ ← tree.lookup id
    return tree.followingSiblings id

end Tree

end TreeSelectors
