import TreeSelectors.Matching.Navigation
import TreeSelectors.Matching.Prefilter
import TreeSelectors.Selector

/-!
# Matching

A chain is matched from its subject leftwards: if an element meets the subject,
each combinator on the left leads to candidates for the next compound, and the
search goes on from each candidate in turn.  A failed attempt says how far back
the search may resume, so that a row of descendant combinators does not try
every ancestor again for every compound.

The depth of an attempt counts the compounds matched so far and the arguments
of functional pseudo-classes around them.
-/

namespace TreeSelectors

namespace Matching

/-- The element that the chains in an argument of `:has()` start from, and how
their leftmost compound has to stand to it. -/
structure Scope (ν : Type) where
  anchor : Combinator
  element : ν

/-- The outcome of an attempt to match the compounds of a chain from one of
them leftwards. -/
inductive Attempt where
  | matched
  /-- The nearest choice among siblings or ancestors may go on. -/
  | resumeAnywhere
  /-- The nearest choice among ancestors may go on. -/
  | resumeAncestor
  /-- No other choice can lead to a match. -/
  | hopeless
deriving DecidableEq, Repr

/-- Matches a compound and those on its left, given from right to left. -/
abbrev ChainMatcher (ν : Type) :=
  (compound : Compound) → (left : List (Combinator × Compound)) →
    (node : ν) → Option (Scope ν) → Except MatchError Attempt

variable {ν : Type} [DecidableEq ν]

/-- Whether some chain of a selector matches a node. -/
def anyChain (attempt : ChainMatcher ν) (node : ν) :
    Selector → Except MatchError Bool
  | [] => return false
  | chain :: rest => do
      if (← attempt chain.subject chain.left node none) = .matched then
        return true
      else
        anyChain attempt node rest

/-! ## The relational pseudo-class -/

/-- Siblings, each followed by the elements below it. -/
def withDescendants (view : TreeView ν) (siblings : List ν) :
    Except MatchError (List ν) :=
  TreeView.gather (fun sibling => do
    return sibling :: (← view.descendantElements sibling)) siblings

/-- The elements that may be the subject of a chain in an argument of `:has()`
on a node.  A chain of a single compound needs a smaller region. -/
def region (view : TreeView ν) (anchor : Combinator) (single : Bool)
    (node : ν) : Except MatchError (List ν) := do
  match anchor, single with
  | .descendant, _ => view.descendantElements node
  | .child, true => view.childElements node
  | .child, false => view.descendantElements node
  | .nextSibling, true => return (← view.nextElements node).take 1
  | .laterSibling, true => view.nextElements node
  | .nextSibling, false | .laterSibling, false =>
      withDescendants view (← view.nextElements node)

/-- Whether a node stands to an element as a combinator says, the element on
its left. -/
def related (view : TreeView ν) (anchor : Combinator) (element node : ν) :
    Except MatchError Bool := do
  match anchor with
  | .descendant => view.isBelow element node
  | .child => return (← view.parent node) = some element
  | .nextSibling => return (← view.previousElements node).head? = some element
  | .laterSibling => return element ∈ (← view.previousElements node)

/-- Whether a chain matches one of some nodes in a scope. -/
def anyCandidate (attempt : ChainMatcher ν) (chain : Chain)
    (scope : Scope ν) : List ν → Except MatchError Bool
  | [] => return false
  | candidate :: rest => do
      if (← attempt chain.subject chain.left candidate scope) = .matched then
        return true
      else
        anyCandidate attempt chain scope rest

/-- Whether some chain of a selector matches an element that stands to a node
as the chain's anchor says. -/
def has (view : TreeView ν) (attempt : ChainMatcher ν) (node : ν) :
    Selector → Except MatchError Bool
  | [] => return false
  | chain :: rest => do
      let anchor := chain.anchor.getD .descendant
      let candidates ← region view anchor chain.left.isEmpty node
      if ← anyCandidate attempt chain ⟨anchor, node⟩ candidates then
        return true
      else
        has view attempt node rest

/-! ## Conditions on one element -/

/-- Whether a child leaves its parent empty: it is no element, and has no
characters of text.  Comments leave it empty. -/
def leavesEmpty (view : TreeView ν) (child : ν) : Except MatchError Bool := do
  if (← view.tagName child).isSome then
    return false
  else
    return (← view.text child).all (·.isEmpty)

def allLeaveEmpty (view : TreeView ν) : List ν → Except MatchError Bool
  | [] => return true
  | child :: rest => do
      if ← leavesEmpty view child then allLeaveEmpty view rest
      else return false

/-- Whether an element with a tag meets a pseudo-class without argument. -/
def plainHolds (view : TreeView ν) (node : ν) (tag : String) :
    PlainClass → Except MatchError Bool
  | .root => do
      match ← view.parent node with
      | none => return true
      | some parent => return (← view.tagName parent).isNone
  | .empty => do allLeaveEmpty view (← view.children node)
  | .firstChild => return (← view.position node none).index = 1
  | .lastChild => do
      let position ← view.position node none
      return position.index = position.count
  | .onlyChild => return (← view.position node none).count = 1
  | .firstOfType => return (← view.position node tag).index = 1
  | .lastOfType => do
      let position ← view.position node tag
      return position.index = position.count
  | .onlyOfType => return (← view.position node tag).count = 1
  | .visited | .hover | .active | .focus | .focusWithin | .focusVisible
  | .target => return false

/-- The position of an element with a tag, as a positional pseudo-class counts
it. -/
def counted (view : TreeView ν) (node : ν) (tag : String) :
    Counting → Except MatchError Nat
  | .children => return (← view.position node none).index
  | .childrenFromEnd => return (← view.position node none).fromEnd
  | .ofType => return (← view.position node tag).index
  | .ofTypeFromEnd => return (← view.position node tag).fromEnd

/-- Whether an element with a tag meets a condition. -/
def simpleHolds (view : TreeView ν) (attempt : ChainMatcher ν) (node : ν)
    (tag : String) : Simple → Except MatchError Bool
  | .type name => return Text.sameFolded tag name
  | .universal => return true
  | .id name => return (← view.id node) = some name
  | .className name => view.hasClass node name
  | .attribute test => return test.accepts (← view.attributeValue node test.name)
  | .plain pseudoClass => plainHolds view node tag pseudoClass
  | .nth counting formula =>
      return formula.includes (← counted view node tag counting)
  | .functional .is argument => anyChain attempt node argument
  | .functional .not argument => return !(← anyChain attempt node argument)
  | .functional .has argument => has view attempt node argument
  | .pseudoElement _ => return false

def allHold (view : TreeView ν) (attempt : ChainMatcher ν) (node : ν)
    (tag : String) : List Simple → Except MatchError Bool
  | [] => return true
  | simple :: rest => do
      if ← simpleHolds view attempt node tag simple then
        allHold view attempt node tag rest
      else
        return false

/-- Whether a node is an element that meets all conditions of a compound. -/
def compoundHolds (view : TreeView ν) (attempt : ChainMatcher ν)
    (compound : Compound) (node : ν) : Except MatchError Bool := do
  match ← view.tagName node with
  | none => return false
  | some tag => allHold view attempt node tag compound

/-! ## Chains -/

/-- The nodes that a combinator leads to from an element on its right. -/
def candidates (view : TreeView ν) (node : ν) :
    Combinator → Except MatchError (List ν)
  | .descendant => view.elementAncestors node
  | .child => return (← view.parentElement node).toList
  | .nextSibling => return (← view.previousElements node).take 1
  | .laterSibling => view.previousElements node

/-- The outcome when the candidates of a combinator are used up. -/
def exhausted : Combinator → Attempt
  | .descendant | .child => .hopeless
  | .nextSibling | .laterSibling => .resumeAncestor

/-- The outcome that an attempt with one candidate settles; `none` if the next
candidate is to be tried. -/
def settled? : Attempt → Combinator → Option Attempt
  | .matched, _ => some .matched
  | .hopeless, _ => some .hopeless
  | attempt, .nextSibling => some attempt
  | .resumeAncestor, .laterSibling => some .resumeAncestor
  | _, .child => some .resumeAncestor
  | _, _ => none

/-- Tries candidates in turn. -/
def search (attempt : ν → Except MatchError Attempt) (combinator : Combinator) :
    List ν → Except MatchError Attempt
  | [] => return exhausted combinator
  | candidate :: rest => do
      match settled? (← attempt candidate) combinator with
      | some outcome => return outcome
      | none => search attempt combinator rest

/-- Matches the compounds of a chain from one of them leftwards, at most
`remaining` levels deeper; `limit` is the depth that the error states. -/
def attempt (view : TreeView ν) (limit : Nat) :
    (remaining : Nat) → ChainMatcher ν
  | 0, _, _, _, _ => throw (.depthExceeded limit)
  | remaining + 1, compound, left, node, scope => do
      let inner := attempt view limit remaining
      if ← compoundHolds view inner compound node then
        match left, scope with
        | [], none => return .matched
        | [], some scope =>
            if ← related view scope.anchor scope.element node then
              return .matched
            else
              return .resumeAnywhere
        | (combinator, next) :: further, scope =>
            search (fun candidate => inner next further candidate scope)
              combinator (← candidates view node combinator)
      else
        return .resumeAnywhere

end Matching

variable {ν : Type} [DecidableEq ν]

/-- Whether a node is an element that a selector matches. -/
def Selector.accepts (view : TreeView ν) (maxDepth : Nat)
    (selector : Selector) (node : ν) : Except MatchError Bool :=
  Matching.anyChain (Matching.attempt view maxDepth maxDepth) node selector

/-- The elements at or below a node that a selector matches, in document
order.  The filter is asked first. -/
def Selector.select (view : TreeView ν) (maxDepth : Nat)
    (selector : Selector) (filter : Prefilter) (root : ν) :
    Except MatchError (List ν) :=
  view.collect (fun node => do
    if (← view.tagName node).any filter.accepts then
      Selector.accepts view maxDepth selector node
    else
      return false) root

end TreeSelectors
