import TreeSelectors.TreeView
import TreeSelectors.Unfolding

/-!
# Navigation between elements

The ways from a node to the elements around it.  Walks along links end after
as many steps as the longest path of the tree has nodes; a walk that has not
arrived by then goes in a circle, and fails.
-/

namespace TreeSelectors

/-- Why an element can be neither matched nor refused. -/
inductive MatchError where
  /-- The tree gave no answer. -/
  | view (failure : ViewError)
  /-- Matching went deeper than the limit. -/
  | depthExceeded (limit : Nat)
  /-- The links of the tree lead in a circle. -/
  | endless
deriving DecidableEq, Repr

def MatchError.message : MatchError → String
  | .view failure => failure.message
  | .depthExceeded limit =>
      "match recursion exceeds the limit of " ++ toString limit
  | .endless => "the links of the tree lead in a circle"

instance : MonadLift (Except ViewError) (Except MatchError) where
  monadLift
    | .ok value => .ok value
    | .error failure => .error (.view failure)

namespace TreeView

variable {ν : Type} [DecidableEq ν]

def isElement (view : TreeView ν) (node : ν) : Except MatchError Bool := do
  return (← view.tagName node).isSome

/-- The elements among some nodes. -/
def onlyElements (view : TreeView ν) : List ν → Except MatchError (List ν)
  | [] => return []
  | node :: rest => do
      let keep ← view.isElement node
      let others ← view.onlyElements rest
      return if keep then node :: others else others

/-- The parent, if it is an element. -/
def parentElement (view : TreeView ν) (node : ν) :
    Except MatchError (Option ν) := do
  match ← view.parent node with
  | none => return none
  | some parent => return if ← view.isElement parent then some parent else none

/-- The elements above a node, the nearest first, after at most `steps` steps
upwards. -/
def elementAncestorsWithin (view : TreeView ν) :
    (steps : Nat) → ν → Except MatchError (List ν)
  | 0, _ => throw .endless
  | steps + 1, node => do
      match ← view.parent node with
      | none => return []
      | some ancestor =>
          let keep ← view.isElement ancestor
          let further ← view.elementAncestorsWithin steps ancestor
          return if keep then ancestor :: further else further

def elementAncestors (view : TreeView ν) (node : ν) :
    Except MatchError (List ν) :=
  view.elementAncestorsWithin view.longestPath node

/-- Whether `ancestor` is above a node, after at most `steps` steps
upwards. -/
def isBelowWithin (view : TreeView ν) (ancestor : ν) :
    (steps : Nat) → ν → Except MatchError Bool
  | 0, _ => throw .endless
  | steps + 1, node => do
      match ← view.parent node with
      | none => return false
      | some parent =>
          if parent = ancestor then return true
          else view.isBelowWithin ancestor steps parent

/-- Whether `ancestor` is above a node. -/
def isBelow (view : TreeView ν) (ancestor node : ν) :
    Except MatchError Bool :=
  view.isBelowWithin ancestor view.longestPath node

def childElements (view : TreeView ν) (node : ν) :
    Except MatchError (List ν) := do
  view.onlyElements (← view.children node)

/-- The results of a function on some nodes, one after the other. -/
def gather (find : ν → Except MatchError (List ν)) :
    List ν → Except MatchError (List ν)
  | [] => return []
  | node :: rest => do
      let found ← find node
      return found ++ (← gather find rest)

/-- The nodes that pass a test, among the nodes on a stack and everything below
them.  Next comes the first node of the stack, which gives way to its children;
each node stands with the number of levels that the walk may go down from it. -/
def walk (view : TreeView ν) (test : ν → Except MatchError Bool)
    (stack : List (Nat × ν)) : Except MatchError (List ν) :=
  match stack with
  | [] => return []
  | (0, _) :: _ => throw .endless
  | (levels + 1, node) :: rest => do
      let keep ← test node
      let children ← view.children node
      let others ← view.walk test (children.map (levels, ·) ++ rest)
      return if keep then node :: others else others
termination_by Unfolds.wellFounded.wrap (stack.map Prod.fst)
decreasing_by exact .of_children children levels rest

/-- The nodes that pass a test, among a node and everything below it, in
document order. -/
def collect (view : TreeView ν) (test : ν → Except MatchError Bool)
    (node : ν) : Except MatchError (List ν) :=
  view.walk test [(view.longestPath, node)]

/-- The elements below a node, in document order. -/
def descendantElements (view : TreeView ν) (node : ν) :
    Except MatchError (List ν) := do
  view.walk view.isElement
    ((← view.children node).map (view.longestPath, ·))

def previousElements (view : TreeView ν) (node : ν) :
    Except MatchError (List ν) := do
  view.onlyElements (← view.previousSiblings node)

def nextElements (view : TreeView ν) (node : ν) :
    Except MatchError (List ν) := do
  view.onlyElements (← view.nextSiblings node)

/-- The nodes among which the position of an element counts: those elements
among some nodes whose tag is the given one, if one is given. -/
def countedElements (view : TreeView ν) (tag : Option String) :
    List ν → Except MatchError (List ν)
  | [] => return []
  | node :: rest => do
      let counts := match ← view.tagName node with
        | none => false
        | some name => tag.all (Text.sameFolded name)
      let others ← view.countedElements tag rest
      return if counts then node :: others else others

/-- Where an element stands among its siblings. -/
structure Position where
  /-- The number of siblings up to the element, or zero if it does not count
  among them. -/
  index : Nat
  /-- The number of siblings. -/
  count : Nat
deriving DecidableEq, Repr

/-- The position counted from the last sibling. -/
def Position.fromEnd (position : Position) : Nat :=
  position.count - position.index + 1

/-- The index of the last occurrence of a node, counted from one; zero if there
is none. -/
def lastIndex (node : ν) (nodes : List ν) : Nat :=
  (nodes.reverse.dropWhile (· ≠ node)).length

/-- The position of an element among its siblings, or among those with a given
tag.  An element without a parent is its only sibling. -/
def position (view : TreeView ν) (node : ν) (tag : Option String) :
    Except MatchError Position := do
  match ← view.parent node with
  | none => return ⟨1, 1⟩
  | some parent =>
      let counted ← view.countedElements tag (← view.children parent)
      return ⟨lastIndex node counted, counted.length⟩

end TreeView

end TreeSelectors
