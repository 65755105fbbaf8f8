import TreeSelectors.CompiledSelector

/-!
# The questions that matching asks

Matching never asks for the list of all attributes of an element.  Views that answer
all other questions alike give the same results, failures included.
-/

namespace TreeSelectors

variable {ν : Type}

/-- Two views that answer alike whatever matching asks. -/
structure TreeView.Alike (first second : TreeView ν) : Prop where
  tagName : first.tagName = second.tagName
  parent : first.parent = second.parent
  children : first.children = second.children
  text : first.text = second.text
  longestPath : first.longestPath = second.longestPath
  attributeValue : first.attributeValue = second.attributeValue
  id : first.id = second.id
  hasClass : first.hasClass = second.hasClass
  previousSiblings : first.previousSiblings = second.previousSiblings
  nextSiblings : first.nextSiblings = second.nextSiblings

namespace TreeView.Alike

variable {first second : TreeView ν} (alike : first.Alike second)

include alike

/-! ## Navigation -/

theorem isElement : first.isElement = second.isElement := by
  funext node
  rw [TreeView.isElement, TreeView.isElement, alike.tagName]

theorem onlyElements : first.onlyElements = second.onlyElements := by
  funext nodes
  induction nodes with
  | nil => rfl
  | cons node rest induction =>
      rw [TreeView.onlyElements, TreeView.onlyElements, alike.isElement, induction]

theorem parentElement : first.parentElement = second.parentElement := by
  funext node
  simp only [TreeView.parentElement, alike.parent, alike.isElement]

theorem elementAncestors : first.elementAncestors = second.elementAncestors := by
  have within (steps : Nat) :
      first.elementAncestorsWithin steps = second.elementAncestorsWithin steps := by
    induction steps with
    | zero => rfl
    | succ steps induction =>
        funext node
        simp only [elementAncestorsWithin, alike.parent, alike.isElement, induction]
  funext node
  rw [TreeView.elementAncestors, TreeView.elementAncestors, alike.longestPath, within]

theorem childElements : first.childElements = second.childElements := by
  funext node
  rw [TreeView.childElements, TreeView.childElements, alike.children,
    alike.onlyElements]

theorem walk (test : ν → Except MatchError Bool) : first.walk test = second.walk test := by
  funext stack
  fun_induction TreeView.walk first test stack with
  | case1 => rw [TreeView.walk]
  | case2 => rw [TreeView.walk]
  | case3 levels node rest induction =>
      rw [TreeView.walk]
      simp only [alike.children, induction]

theorem descendantElements :
    first.descendantElements = second.descendantElements := by
  funext node
  simp only [TreeView.descendantElements, alike.children, alike.longestPath,
    alike.isElement, alike.walk]

theorem previousElements : first.previousElements = second.previousElements := by
  funext node
  rw [TreeView.previousElements, TreeView.previousElements, alike.previousSiblings,
    alike.onlyElements]

theorem nextElements : first.nextElements = second.nextElements := by
  funext node
  rw [TreeView.nextElements, TreeView.nextElements, alike.nextSiblings,
    alike.onlyElements]

theorem countedElements (tag : Option String) :
    first.countedElements tag = second.countedElements tag := by
  funext nodes
  induction nodes with
  | nil => rfl
  | cons node rest induction =>
      simp only [TreeView.countedElements, alike.tagName, induction]

variable [DecidableEq ν]

theorem isBelow (ancestor : ν) : first.isBelow ancestor = second.isBelow ancestor := by
  have within (steps : Nat) :
      first.isBelowWithin ancestor steps = second.isBelowWithin ancestor steps := by
    induction steps with
    | zero => rfl
    | succ steps induction =>
        funext node
        simp only [isBelowWithin, alike.parent, induction]
  funext node
  rw [TreeView.isBelow, TreeView.isBelow, alike.longestPath, within]

theorem position : first.position = second.position := by
  funext node tag
  simp only [TreeView.position, alike.parent, alike.children, alike.countedElements]

/-! ## Matching -/

open Matching

omit [DecidableEq ν] in
theorem withDescendants :
    Matching.withDescendants first = Matching.withDescendants second := by
  funext siblings
  simp only [Matching.withDescendants, alike.descendantElements]

omit [DecidableEq ν] in
theorem region : Matching.region first = Matching.region second := by
  funext anchor single node
  simp only [Matching.region, alike.descendantElements, alike.childElements,
    alike.nextElements, alike.withDescendants]

theorem related : Matching.related first = Matching.related second := by
  funext anchor element node
  simp only [Matching.related, alike.isBelow, alike.parent, alike.previousElements]

omit [DecidableEq ν] in
theorem has (attempt : ChainMatcher ν) :
    Matching.has first attempt = Matching.has second attempt := by
  funext node selector
  induction selector with
  | nil => rfl
  | cons chain rest induction =>
      simp only [Matching.has, alike.region, induction]

omit [DecidableEq ν] in
theorem allLeaveEmpty :
    Matching.allLeaveEmpty first = Matching.allLeaveEmpty second := by
  funext children
  induction children with
  | nil => rfl
  | cons child rest induction =>
      simp only [Matching.allLeaveEmpty, leavesEmpty, alike.tagName, alike.text,
        induction]

theorem plainHolds : Matching.plainHolds first = Matching.plainHolds second := by
  funext node tag pseudoClass
  cases pseudoClass with
  | root | empty | visited | hover | active | focus | focusWithin | focusVisible
  | target =>
      simp only [Matching.plainHolds, alike.parent, alike.tagName, alike.children,
        alike.allLeaveEmpty]
  | firstChild | lastChild | onlyChild | firstOfType | lastOfType | onlyOfType =>
      simp only [Matching.plainHolds, alike.position]

theorem counted : Matching.counted first = Matching.counted second := by
  funext node tag counting
  cases counting with
  | children | childrenFromEnd | ofType | ofTypeFromEnd =>
      simp only [Matching.counted, alike.position]

theorem simpleHolds (attempt : ChainMatcher ν) :
    Matching.simpleHolds first attempt = Matching.simpleHolds second attempt := by
  funext node tag simple
  cases simple with
  | functional function argument =>
      cases function with
      | is | not => rfl
      | has => simp only [Matching.simpleHolds, alike.has]
  | type | universal | id | className | «attribute» | plain | nth | pseudoElement =>
      simp only [Matching.simpleHolds, alike.id, alike.hasClass, alike.attributeValue,
        alike.plainHolds, alike.counted]

theorem compoundHolds (attempt : ChainMatcher ν) :
    Matching.compoundHolds first attempt = Matching.compoundHolds second attempt := by
  have allHold : Matching.allHold first attempt = Matching.allHold second attempt := by
    funext node tag compound
    induction compound with
    | nil => rfl
    | cons simple rest induction =>
        simp only [Matching.allHold, alike.simpleHolds, induction]
  funext compound node
  simp only [Matching.compoundHolds, alike.tagName, allHold]

omit [DecidableEq ν] in
theorem candidates : Matching.candidates first = Matching.candidates second := by
  funext node combinator
  cases combinator with
  | descendant | child | nextSibling | laterSibling =>
      simp only [Matching.candidates, alike.elementAncestors, alike.parentElement,
        alike.previousElements]

theorem attempt (limit remaining : Nat) :
    Matching.attempt first limit remaining = Matching.attempt second limit remaining := by
  induction remaining with
  | zero => rfl
  | succ remaining induction =>
      funext compound left node scope
      simp only [Matching.attempt, induction, alike.compoundHolds, alike.related,
        alike.candidates]

theorem accepts : Selector.accepts first = Selector.accepts second := by
  funext maxDepth selector node
  rw [Selector.accepts, Selector.accepts, alike.attempt]

theorem select : Selector.select first = Selector.select second := by
  funext maxDepth selector filter root
  simp only [Selector.select, collect, alike.tagName, alike.accepts, alike.walk,
    alike.longestPath]

end TreeView.Alike

end TreeSelectors
