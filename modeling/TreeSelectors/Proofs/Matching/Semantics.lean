import TreeSelectors.Proofs.Forest
import TreeSelectors.Selector

/-!
# The meaning of selectors

What it means for an element to satisfy a selector, without a search, a depth
limit or a failing view.  A chain asks for an assignment of elements to its
compounds; `Chain.Links` is that assignment from one compound leftwards.
-/

namespace TreeSelectors

variable {ν : Type} [DecidableEq ν]

/-- `combinator.Relates forest left right`: two elements stand to each other as
the combinator between them says. -/
def Combinator.Relates (forest : Forest ν) (left right : ν) :
    Combinator → Prop
  | .descendant => forest.Above left right
  | .child => forest.parent right = some left
  | .nextSibling =>
      ((forest.before right).filter forest.isElement).getLast? = some left
  | .laterSibling => left ∈ forest.before right

/-- The largest position for which 64-bit arithmetic with any formula is
exact. -/
def Nth.maxPosition : Nat :=
  0x8000000000000000 - 0x80000000 - 1

/-- A position belongs to a formula if it is the step, taken some number of
times, and the offset.  Beyond the largest exact position the formula's own
arithmetic counts. -/
def Nth.Admits (formula : Nth) (position : Nat) : Prop :=
  if position ≤ maxPosition then
    ∃ times : Nat,
      formula.step.toInt * times + formula.offset.toInt = position
  else
    formula.includes position

namespace Forest

/-- Whether two nodes are elements whose tags differ at most in the case of
ASCII letters. -/
def sameTag (forest : Forest ν) (node other : ν) : Bool :=
  match forest.tag node, forest.tag other with
  | some tag, some otherTag => Text.sameFolded otherTag tag
  | _, _ => false

end Forest

/-- The siblings on the side of an element from which its position is counted,
as far as they count. -/
def Counting.passed (forest : Forest ν) (node : ν) : Counting → List ν
  | .children => (forest.before node).filter forest.isElement
  | .childrenFromEnd => (forest.after node).filter forest.isElement
  | .ofType => (forest.before node).filter (forest.sameTag node)
  | .ofTypeFromEnd => (forest.after node).filter (forest.sameTag node)

/-- Whether an element satisfies a pseudo-class without argument.  No element
is in a state that a user brings about. -/
def PlainClass.Holds (forest : Forest ν) (node : ν) : PlainClass → Prop
  | .root =>
      ∀ parent, forest.parent node = some parent → forest.tag parent = none
  | .empty =>
      ∀ child ∈ forest.children node,
        forest.tag child = none ∧
          ∀ text, forest.text child = some text → text = ""
  | .firstChild => Counting.children.passed forest node = []
  | .lastChild => Counting.childrenFromEnd.passed forest node = []
  | .onlyChild =>
      Counting.children.passed forest node = [] ∧
        Counting.childrenFromEnd.passed forest node = []
  | .firstOfType => Counting.ofType.passed forest node = []
  | .lastOfType => Counting.ofTypeFromEnd.passed forest node = []
  | .onlyOfType =>
      Counting.ofType.passed forest node = [] ∧
        Counting.ofTypeFromEnd.passed forest node = []
  | .visited | .hover | .active | .focus | .focusWithin | .focusVisible
  | .target => False

mutual

/-- Whether an element satisfies a condition. -/
def Simple.Holds (forest : Forest ν) : Simple → ν → Prop
  | .type name, node =>
      ∃ tag, forest.tag node = some tag ∧ Text.sameFolded tag name
  | .universal, _ => True
  | .id name, node => forest.attributeValue node "id" = some name
  | .className name, node =>
      ∃ list, forest.attributeValue node "class" = some list ∧
        Text.hasWord list name
  | .attribute test, node => test.accepts (forest.attributeValue node test.name)
  | .plain pseudoClass, node => pseudoClass.Holds forest node
  | .nth counting formula, node =>
      formula.Admits ((counting.passed forest node).length + 1)
  | .functional .is argument, node => Selector.Holds forest argument node
  | .functional .not argument, node => ¬ Selector.Holds forest argument node
  | .functional .has argument, node => Selector.HoldsFrom forest argument node
  | .pseudoElement _, _ => False

/-- Whether an element satisfies all conditions of a compound. -/
def Compound.Holds (forest : Forest ν) : List Simple → ν → Prop
  | [], _ => True
  | simple :: rest, node => simple.Holds forest node ∧ Compound.Holds forest rest node

/-- Whether elements can be assigned to compounds, given from right to left,
such that each satisfies its compound and stands as the combinator says to the
one on its right, the first of them to `node`, and the leftmost element meets
`start`. -/
def Chain.Links (forest : Forest ν) (start : ν → Prop) :
    List (Combinator × List Simple) → ν → Prop
  | [], node => start node
  | (combinator, compound) :: further, node =>
      ∃ left, forest.isElement left ∧ combinator.Relates forest left node ∧
        Compound.Holds forest compound left ∧
        Chain.Links forest start further left

/-- Whether an element is the subject of a chain whose leftmost element meets
`start`. -/
def Chain.Holds (forest : Forest ν) (start : ν → Prop) : Chain → ν → Prop
  | ⟨subject, left, _⟩, node =>
      forest.isElement node ∧ Compound.Holds forest subject node ∧
        Chain.Links forest start left node

/-- Whether an element satisfies one of some chains. -/
def Selector.Holds (forest : Forest ν) : List Chain → ν → Prop
  | [], _ => False
  | chain :: rest, node =>
      chain.Holds forest (fun _ => True) node ∨ Selector.Holds forest rest node

/-- Whether some element anywhere is the subject of one of some chains whose
leftmost element stands to `node` as the chain's anchor says. -/
def Selector.HoldsFrom (forest : Forest ν) : List Chain → ν → Prop
  | [], _ => False
  | ⟨subject, left, anchor⟩ :: rest, node =>
      (∃ element, Chain.Holds forest
        (fun leftmost => (anchor.getD .descendant).Relates forest node leftmost)
        ⟨subject, left, anchor⟩ element) ∨
      Selector.HoldsFrom forest rest node

end

section

variable {forest : Forest ν} {node : ν}

@[simp] theorem Simple.holds_universal : Simple.universal.Holds forest node := by
  rw [Simple.Holds]
  trivial

@[simp] theorem Simple.holds_plain_iff {plain : PlainClass} :
    (Simple.plain plain).Holds forest node ↔ plain.Holds forest node := by
  rw [Simple.Holds]

@[simp] theorem Simple.holds_is_iff {argument : Selector} :
    (Simple.functional .is argument).Holds forest node ↔
      Selector.Holds forest argument node := by
  rw [Simple.Holds]

@[simp] theorem Simple.holds_not_iff {argument : Selector} :
    (Simple.functional .not argument).Holds forest node ↔
      ¬ Selector.Holds forest argument node := by
  rw [Simple.Holds]

@[simp] theorem Compound.holds_nil : Compound.Holds forest [] node := by
  rw [Compound.Holds]
  trivial

@[simp] theorem Compound.holds_cons_iff {simple : Simple} {rest : Compound} :
    Compound.Holds forest (simple :: rest) node ↔
      simple.Holds forest node ∧ Compound.Holds forest rest node := by
  rw [Compound.Holds]

@[simp] theorem Chain.links_nil_iff {start : ν → Prop} :
    Chain.Links forest start [] node ↔ start node := by
  rw [Chain.Links]

@[simp] theorem Chain.holds_single_iff {compound : Compound} :
    Chain.Holds forest (fun _ => True) ⟨compound, [], none⟩ node ↔
      forest.isElement node ∧ Compound.Holds forest compound node := by
  simp [Chain.Holds]

@[simp] theorem Selector.not_holds_nil : ¬ Selector.Holds forest [] node := by
  simp [Selector.Holds]

@[simp] theorem Selector.holds_cons_iff {chain : Chain} {rest : Selector} :
    Selector.Holds forest (chain :: rest) node ↔
      chain.Holds forest (fun _ => True) node ∨ Selector.Holds forest rest node := by
  rw [Selector.Holds]

theorem Compound.holds_iff {compound : Compound} :
    Compound.Holds forest compound node ↔
      ∀ simple ∈ compound, simple.Holds forest node := by
  induction compound with
  | nil => simp
  | cons simple rest induction => rw [holds_cons_iff, induction, List.forall_mem_cons]

theorem Selector.holds_iff {selector : Selector} :
    Selector.Holds forest selector node ↔
      ∃ chain ∈ selector, Chain.Holds forest (fun _ => True) chain node := by
  induction selector with
  | nil => simp
  | cons chain rest induction => simp [induction]

theorem Selector.holdsFrom_iff {selector : Selector} :
    Selector.HoldsFrom forest selector node ↔
      ∃ chain ∈ selector, ∃ element,
        Chain.Holds forest ((chain.anchor.getD .descendant).Relates forest node) chain
          element := by
  induction selector with
  | nil => simp [Selector.HoldsFrom]
  | cons chain rest induction =>
      obtain ⟨subject, left, anchor⟩ := chain
      rw [Selector.HoldsFrom, induction]
      simp

/-- What satisfies a selector is an element. -/
theorem Selector.isElement_of_holds {selector : Selector}
    (holds : Selector.Holds forest selector node) : forest.isElement node = true := by
  obtain ⟨⟨subject, left, anchor⟩, -, chain⟩ := Selector.holds_iff.mp holds
  rw [Chain.Holds] at chain
  exact chain.1

@[simp] theorem Selector.holds_append_iff {first second : Selector} :
    Selector.Holds forest (first ++ second) node ↔
      Selector.Holds forest first node ∨ Selector.Holds forest second node := by
  simp only [Selector.holds_iff, List.mem_append, or_and_right, exists_or]

/-- An element satisfies `:not()` over a compound if it does not satisfy the
compound. -/
@[simp] theorem Simple.holds_not_single_iff {compound : Compound}
    (element : forest.isElement node) :
    Simple.Holds forest (.functional .not [⟨compound, [], none⟩]) node ↔
      ¬ Compound.Holds forest compound node := by
  simp [element]

/-- `:has()` over a compound asks for an element that satisfies it and stands as the
anchor says. -/
@[simp] theorem Simple.holds_has_single_iff {compound : Compound} {anchor : Combinator} :
    Simple.Holds forest (.functional .has [⟨compound, [], some anchor⟩]) node ↔
      ∃ element, forest.isElement element ∧ Compound.Holds forest compound element ∧
        anchor.Relates forest node element := by
  simp [Simple.Holds, Selector.HoldsFrom, Chain.Holds]

theorem Selector.holds_is_iff {selector : Selector} :
    Selector.Holds forest [⟨[.functional .is selector], [], none⟩] node ↔
      forest.isElement node ∧ Selector.Holds forest selector node := by
  simp

theorem Selector.holds_not_iff {selector : Selector} :
    Selector.Holds forest [⟨[.functional .not selector], [], none⟩] node ↔
      forest.isElement node ∧ ¬ Selector.Holds forest selector node := by
  simp

end

end TreeSelectors
