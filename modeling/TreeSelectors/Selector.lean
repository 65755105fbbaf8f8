import TreeSelectors.AttributeTest
import TreeSelectors.Nth

/-!
# Selectors

A selector is a list of chains, and holds of an element if one of its chains
does.  A chain is a row of compounds joined by combinators, and a compound is
a list of conditions on a single element.  Aliases have no form of their own:
they stand here as `:is()` over the selector that they abbreviate.
-/

namespace TreeSelectors

/-- How the elements of two neighbouring compounds stand to each other. -/
inductive Combinator where
  /-- `A B`: the second element is anywhere below the first. -/
  | descendant
  /-- `A > B`: the second element is a child of the first. -/
  | child
  /-- `A + B`: the second element is the next sibling of the first. -/
  | nextSibling
  /-- `A ~ B`: the second element is a later sibling of the first. -/
  | laterSibling
deriving DecidableEq, Repr

/-- The sign of a combinator in selector text. -/
def Combinator.sign : Combinator → Char
  | .descendant => ' '
  | .child => '>'
  | .nextSibling => '+'
  | .laterSibling => '~'

/-- The pseudo-classes whose argument is a selector. -/
inductive SelectorFunction where
  | is
  | not
  | has
deriving DecidableEq, Repr

namespace SelectorFunction

def name : SelectorFunction → String
  | .is => "is"
  | .not => "not"
  | .has => "has"

/-- The function with a given name; `:is()` has four more names. -/
def ofName? (name : String) : Option SelectorFunction :=
  if name ∈ ["is", "where", "matches", "-moz-any", "-webkit-any"] then
    some .is
  else if name = "not" then
    some .not
  else if name = "has" then
    some .has
  else
    none

end SelectorFunction

/-- The ways in which a positional pseudo-class counts the siblings of an
element. -/
inductive Counting where
  | children
  | childrenFromEnd
  | ofType
  | ofTypeFromEnd
deriving DecidableEq, Repr

namespace Counting

def name : Counting → String
  | .children => "nth-child"
  | .childrenFromEnd => "nth-last-child"
  | .ofType => "nth-of-type"
  | .ofTypeFromEnd => "nth-last-of-type"

def all : List Counting :=
  [.children, .childrenFromEnd, .ofType, .ofTypeFromEnd]

def ofName? (name : String) : Option Counting :=
  all.find? (·.name = name)

end Counting

/-- The pseudo-classes that take no argument. -/
inductive PlainClass where
  | root
  | empty
  | firstChild
  | lastChild
  | onlyChild
  | firstOfType
  | lastOfType
  | onlyOfType
  | visited
  | hover
  | active
  | focus
  | focusWithin
  | focusVisible
  | target
deriving DecidableEq, Repr

namespace PlainClass

def name : PlainClass → String
  | .root => "root"
  | .empty => "empty"
  | .firstChild => "first-child"
  | .lastChild => "last-child"
  | .onlyChild => "only-child"
  | .firstOfType => "first-of-type"
  | .lastOfType => "last-of-type"
  | .onlyOfType => "only-of-type"
  | .visited => "visited"
  | .hover => "hover"
  | .active => "active"
  | .focus => "focus"
  | .focusWithin => "focus-within"
  | .focusVisible => "focus-visible"
  | .target => "target"

def all : List PlainClass :=
  [.root, .empty, .firstChild, .lastChild, .onlyChild, .firstOfType,
    .lastOfType, .onlyOfType, .visited, .hover, .active, .focus, .focusWithin,
    .focusVisible, .target]

def ofName? (name : String) : Option PlainClass :=
  all.find? (·.name = name)

/-- Whether the class describes what a user does.  A tree that nobody interacts
with has no such state. -/
def isUserAction : PlainClass → Bool
  | .visited | .hover | .active | .focus | .focusWithin | .focusVisible
  | .target => true
  | _ => false

end PlainClass

mutual

/-- A condition on a single element. -/
inductive Simple where
  | type (name : String)
  | universal
  | id (name : String)
  | className (name : String)
  | attribute (test : AttributeTest)
  | plain (pseudoClass : PlainClass)
  | nth (counting : Counting) (formula : Nth)
  | functional (function : SelectorFunction) (argument : List Chain)
  | pseudoElement (name : String)

/-- Compounds joined by combinators.  The last compound is the subject; the
others follow from right to left, each with the combinator on its right.  In
the argument of `:has()` the anchor says how the leftmost compound stands to
the tested element. -/
structure Chain where
  subject : List Simple
  left : List (Combinator × List Simple)
  anchor : Option Combinator

end

/-- Conditions that hold of one element together. -/
abbrev Compound := List Simple

/-- Alternatives; one of them has to hold. -/
abbrev Selector := List Chain

/-- The name in the first type condition of a compound. -/
def Compound.typeName? (compound : Compound) : Option String :=
  compound.findSome? fun
    | .type name => some name
    | _ => none

/-- The compound at the left end of a chain. -/
def Chain.leftmost (chain : Chain) : Compound :=
  match chain.left.getLast? with
  | some (_, compound) => compound
  | none => chain.subject

end TreeSelectors
