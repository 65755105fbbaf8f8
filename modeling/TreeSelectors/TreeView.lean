import TreeSelectors.Text.Ascii

/-!
# Views of trees

Selectors are matched through a view: a handful of questions about single
nodes, each of which may fail.  `TreeView.ofQueries` answers all questions
from the five that no tree can do without.
-/

namespace TreeSelectors

/-- Why a tree gives no answer. -/
inductive ViewError where
  /-- The tree has no such node. -/
  | unknownNode (node : String)
  /-- Any other failure of the tree. -/
  | backend (reason : String)
deriving DecidableEq, Repr

def ViewError.message : ViewError → String
  | .unknownNode node => "unknown node " ++ node
  | .backend reason => "tree adapter failure: " ++ reason

/-- The questions about a node that a tree has to answer.  Nodes of all kinds
are parents and children; an element is a node with a tag name. -/
structure TreeQueries (ν : Type) where
  tagName : ν → Except ViewError (Option String)
  attributes : ν → Except ViewError (List (String × String))
  parent : ν → Except ViewError (Option ν)
  children : ν → Except ViewError (List ν)
  /-- The characters of a text node. -/
  text : ν → Except ViewError (Option String)
  /-- As many nodes as a path that goes from each node to its parent, or from
  each node to one of its children, can have. -/
  longestPath : Nat

/-- All questions about a node that matching asks. -/
structure TreeView (ν : Type) extends TreeQueries ν where
  attributeValue : ν → String → Except ViewError (Option String)
  id : ν → Except ViewError (Option String)
  hasClass : ν → String → Except ViewError Bool
  /-- The siblings in front of a node, the nearest first. -/
  previousSiblings : ν → Except ViewError (List ν)
  /-- The siblings after a node, the nearest first. -/
  nextSiblings : ν → Except ViewError (List ν)

namespace TreeQueries

variable {ν : Type} [DecidableEq ν]

/-- The value of the first attribute with a name. -/
def attributeValue (queries : TreeQueries ν) (node : ν) (name : String) :
    Except ViewError (Option String) := do
  return (← queries.attributes node).lookup name

/-- Whether a name is one of the words of the `class` attribute. -/
def hasClass (queries : TreeQueries ν) (node : ν) (name : String) :
    Except ViewError Bool := do
  return (← queries.attributeValue node "class").any (Text.hasWord · name)

/-- The children of the parent of a node; a node without a parent has no
siblings, and a parent without the node as a child is a failure. -/
def siblings (queries : TreeQueries ν) (describe : ν → String) (node : ν) :
    Except ViewError (List ν) := do
  match ← queries.parent node with
  | none => return []
  | some parent =>
      let children ← queries.children parent
      if node ∈ children then
        return children
      else
        throw (.backend
          (describe node ++ " missing from its parent's children"))

def previousSiblings (queries : TreeQueries ν) (describe : ν → String)
    (node : ν) : Except ViewError (List ν) := do
  return ((← queries.siblings describe node).takeWhile (· ≠ node)).reverse

def nextSiblings (queries : TreeQueries ν) (describe : ν → String)
    (node : ν) : Except ViewError (List ν) := do
  return ((← queries.siblings describe node).dropWhile (· ≠ node)).drop 1

end TreeQueries

/-- The view that five questions determine.  Failures name a node by
`describe`. -/
def TreeView.ofQueries {ν : Type} [DecidableEq ν] (queries : TreeQueries ν)
    (describe : ν → String) : TreeView ν where
  toTreeQueries := queries
  attributeValue := queries.attributeValue
  id node := queries.attributeValue node "id"
  hasClass := queries.hasClass
  previousSiblings := queries.previousSiblings describe
  nextSiblings := queries.nextSiblings describe

end TreeSelectors
