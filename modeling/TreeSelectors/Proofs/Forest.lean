import TreeSelectors.TreeView

/-!
# Forests

A forest is what a view can tell about its nodes, stated as plain facts.  The
relations between nodes that combinators and positional pseudo-classes speak of
are defined here, and `TreeView.Tells` connects a view with the facts behind
its answers.
-/

namespace TreeSelectors

/-- The facts about some nodes.  A node without a tag is no element. -/
structure Forest (ν : Type) where
  tag : ν → Option String
  attributeValue : ν → String → Option String
  text : ν → Option String
  parent : ν → Option ν
  children : ν → List ν

namespace Forest

variable {ν : Type}

def isElement (forest : Forest ν) (node : ν) : Bool :=
  (forest.tag node).isSome

/-- `forest.Above ancestor node`: going from parent to parent leads from the
node to the ancestor. -/
inductive Above (forest : Forest ν) (ancestor : ν) : ν → Prop where
  | parent {node : ν} :
      forest.parent node = some ancestor → Above forest ancestor node
  | further {node parent : ν} :
      forest.parent node = some parent → Above forest ancestor parent →
      Above forest ancestor node

section Siblings

variable [DecidableEq ν]

/-- The siblings in front of a node, in document order. -/
def before (forest : Forest ν) (node : ν) : List ν :=
  match forest.parent node with
  | none => []
  | some parent => (forest.children parent).takeWhile (· ≠ node)

/-- The siblings after a node, in document order. -/
def after (forest : Forest ν) (node : ν) : List ν :=
  match forest.parent node with
  | none => []
  | some parent => ((forest.children parent).dropWhile (· ≠ node)).drop 1

end Siblings

/-- Parents and children agree, and no node is twice a child. -/
structure Consistent (forest : Forest ν) : Prop where
  mem_children_iff {child parent : ν} :
    child ∈ forest.children parent ↔ forest.parent child = some parent
  children_nodup (parent : ν) : (forest.children parent).Nodup

/-- A node that has children is an element, or it has no parent. -/
def InnerElements (forest : Forest ν) : Prop :=
  ∀ {child parent : ν}, forest.parent child = some parent →
    forest.isElement parent = false → forest.parent parent = none

/-- Going from parent to parent comes to an end. -/
def Acyclic (forest : Forest ν) : Prop :=
  WellFounded fun parent child => forest.parent child = some parent

end Forest

/-- Every answer of a view is a fact of the forest. -/
structure TreeView.Tells {ν : Type} [DecidableEq ν] (view : TreeView ν)
    (forest : Forest ν) : Prop where
  tagName {node : ν} {tag : Option String} :
    view.tagName node = .ok tag → tag = forest.tag node
  parent {node : ν} {parent : Option ν} :
    view.parent node = .ok parent → parent = forest.parent node
  children {node : ν} {children : List ν} :
    view.children node = .ok children → children = forest.children node
  text {node : ν} {text : Option String} :
    view.text node = .ok text → text = forest.text node
  attributeValue {node : ν} {name : String} {value : Option String} :
    view.attributeValue node name = .ok value →
      value = forest.attributeValue node name
  id {node : ν} {value : Option String} :
    view.id node = .ok value → value = forest.attributeValue node "id"
  hasClass {node : ν} {name : String} {answer : Bool} :
    view.hasClass node name = .ok answer →
      answer = (forest.attributeValue node "class").any (Text.hasWord · name)
  previousSiblings {node : ν} {siblings : List ν} :
    view.previousSiblings node = .ok siblings →
      siblings = (forest.before node).reverse
  nextSiblings {node : ν} {siblings : List ν} :
    view.nextSiblings node = .ok siblings → siblings = forest.after node

end TreeSelectors
