import TreeSelectors.Matching
import TreeSelectors.Proofs.Answer

/-!
# The depth of a selector

How many levels matching goes down is bounded by the selector alone: by the
compounds of a chain, and by the arguments of functional pseudo-classes around
them.  With as many levels, matching fails only where a question about the tree
does.
-/

namespace TreeSelectors

mutual

/-- The depth of the argument of a condition. -/
def Simple.depth : Simple → Nat
  | .functional _ argument => Selector.depth argument
  | _ => 0

/-- The largest depth of an argument in a compound. -/
def Compound.depth : List Simple → Nat
  | [] => 0
  | simple :: rest => max simple.depth (Compound.depth rest)

/-- The depth of compounds, each one level deeper than the one on its right. -/
def Chain.depthLeft : List (Combinator × List Simple) → Nat
  | [] => 0
  | (_, compound) :: rest => max (Compound.depth compound) (Chain.depthLeft rest) + 1

def Chain.depth : Chain → Nat
  | ⟨subject, left, _⟩ => max (Compound.depth subject) (Chain.depthLeft left) + 1

def Selector.depth : List Chain → Nat
  | [] => 0
  | chain :: rest => max chain.depth (Selector.depth rest)

end

@[simp] theorem Selector.depth_single {simple : Simple} {anchor : Option Combinator} :
    Selector.depth [⟨[simple], [], anchor⟩] = simple.depth + 1 := by
  simp only [Selector.depth, Chain.depth, Chain.depthLeft, Compound.depth, Nat.max_zero]

/-! ## Failures that are ruled out -/

theorem Gives.of_lifted {α : Type} {bad : MatchError → Prop} {meets : α → Prop}
    {result : Except ViewError α} {answer : α}
    (answered : result = .ok answer) (holds : meets answer) :
    Gives bad meets (liftM result : Except MatchError α) :=
  .of_answer (liftM_eq_ok.mpr answered) holds

variable {ν : Type} [DecidableEq ν]

/-- Questions about some nodes have no bad failures, and lead to such nodes
again. -/
structure TreeView.Safe (view : TreeView ν) (bad : MatchError → Prop)
    (inside : ν → Prop) : Prop where
  tagName {node : ν} : inside node →
    Gives bad (fun _ => True) (liftM (view.tagName node) : Except MatchError _)
  text {node : ν} : inside node →
    Gives bad (fun _ => True) (liftM (view.text node) : Except MatchError _)
  attributeValue {node : ν} (name : String) : inside node →
    Gives bad (fun _ => True)
      (liftM (view.attributeValue node name) : Except MatchError _)
  id {node : ν} : inside node →
    Gives bad (fun _ => True) (liftM (view.id node) : Except MatchError _)
  hasClass {node : ν} (name : String) : inside node →
    Gives bad (fun _ => True) (liftM (view.hasClass node name) : Except MatchError _)
  parent {node : ν} : inside node →
    Gives bad (∀ parent ∈ ·, inside parent)
      (liftM (view.parent node) : Except MatchError _)
  children {node : ν} : inside node →
    Gives bad (∀ child ∈ ·, inside child)
      (liftM (view.children node) : Except MatchError _)
  previousSiblings {node : ν} : inside node →
    Gives bad (∀ sibling ∈ ·, inside sibling)
      (liftM (view.previousSiblings node) : Except MatchError _)
  nextSiblings {node : ν} : inside node →
    Gives bad (∀ sibling ∈ ·, inside sibling)
      (liftM (view.nextSiblings node) : Except MatchError _)
  elementAncestors {node : ν} : inside node →
    Gives bad (∀ ancestor ∈ ·, inside ancestor) (view.elementAncestors node)
  descendantElements {node : ν} : inside node →
    Gives bad (∀ element ∈ ·, inside element) (view.descendantElements node)
  isBelow (ancestor : ν) {node : ν} : inside node →
    Gives bad (fun _ => True) (view.isBelow ancestor node)

namespace TreeView.Safe

variable {view : TreeView ν} {bad : MatchError → Prop} {inside : ν → Prop}
  (safe : view.Safe bad inside)

include safe

theorem isElement {node : ν} (known : inside node) :
    Gives bad (fun _ => True) (view.isElement node) :=
  .bind (safe.tagName known) fun _ _ => .pure trivial

theorem onlyElements {nodes : List ν} (known : ∀ node ∈ nodes, inside node) :
    Gives bad (∀ element ∈ ·, inside element) (view.onlyElements nodes) := by
  induction nodes with
  | nil => exact .pure (by simp)
  | cons node rest induction =>
      obtain ⟨first, others⟩ := List.forall_mem_cons.mp known
      refine .bind (safe.isElement first) fun keep _ => ?_
      refine .bind (induction others) fun elements found => .pure ?_
      cases keep with
      | true => exact List.forall_mem_cons.mpr ⟨first, found⟩
      | false => exact found

theorem parentElement {node : ν} (known : inside node) :
    Gives bad (∀ parent ∈ ·, inside parent) (view.parentElement node) := by
  refine .bind (safe.parent known) fun parent found => ?_
  cases parent with
  | none => exact .pure (by simp)
  | some parent =>
      have above := found parent rfl
      refine .bind (safe.isElement above) fun keep _ => .pure ?_
      cases keep with
      | true => simpa using above
      | false => simp

theorem previousElements {node : ν} (known : inside node) :
    Gives bad (∀ element ∈ ·, inside element) (view.previousElements node) :=
  .bind (safe.previousSiblings known) fun _ => safe.onlyElements

theorem nextElements {node : ν} (known : inside node) :
    Gives bad (∀ element ∈ ·, inside element) (view.nextElements node) :=
  .bind (safe.nextSiblings known) fun _ => safe.onlyElements

theorem childElements {node : ν} (known : inside node) :
    Gives bad (∀ element ∈ ·, inside element) (view.childElements node) :=
  .bind (safe.children known) fun _ => safe.onlyElements

theorem countedElements (tag : Option String) {nodes : List ν}
    (known : ∀ node ∈ nodes, inside node) :
    Gives bad (fun _ => True) (view.countedElements tag nodes) := by
  induction nodes with
  | nil => exact .pure trivial
  | cons node rest induction =>
      obtain ⟨first, others⟩ := List.forall_mem_cons.mp known
      refine .bind (safe.tagName first) fun name _ => ?_
      exact .bind (induction others) fun _ _ => .pure trivial

theorem position {node : ν} (known : inside node) (tag : Option String) :
    Gives bad (fun _ => True) (view.position node tag) := by
  refine .bind (safe.parent known) fun parent found => ?_
  cases parent with
  | none => exact .pure trivial
  | some parent =>
      refine .bind (safe.children (found parent rfl)) fun children below => ?_
      exact .bind (safe.countedElements tag below) fun _ _ => .pure trivial

end TreeView.Safe

namespace Matching

/-! ## Conditions -/

section

variable {view : TreeView ν} {bad : MatchError → Prop} {inside : ν → Prop}
  (safe : view.Safe bad inside)

include safe

private theorem leavesEmpty_gives {child : ν} (known : inside child) :
    Gives bad (fun _ => True) (leavesEmpty view child) := by
  refine .bind (safe.tagName known) fun tag _ => ?_
  split
  · exact .pure trivial
  · exact .bind (safe.text known) fun _ _ => .pure trivial

private theorem allLeaveEmpty_gives {children : List ν}
    (known : ∀ child ∈ children, inside child) :
    Gives bad (fun _ => True) (allLeaveEmpty view children) := by
  induction children with
  | nil => exact .pure trivial
  | cons child rest induction =>
      obtain ⟨first, others⟩ := List.forall_mem_cons.mp known
      refine .bind (leavesEmpty_gives safe first) fun empty _ => ?_
      split
      · exact induction others
      · exact .pure trivial

private theorem plainHolds_gives {node : ν} (known : inside node) (tag : String)
    (pseudoClass : PlainClass) :
    Gives bad (fun _ => True) (plainHolds view node tag pseudoClass) := by
  cases pseudoClass with
  | root =>
      refine .bind (safe.parent known) fun parent found => ?_
      cases parent with
      | none => exact .pure trivial
      | some parent =>
          exact .bind (safe.tagName (found parent rfl)) fun _ _ => .pure trivial
  | empty =>
      exact .bind (safe.children known) fun _ => allLeaveEmpty_gives safe
  | firstChild | lastChild | onlyChild =>
      exact .bind (safe.position known none) fun _ _ => .pure trivial
  | firstOfType | lastOfType | onlyOfType =>
      exact .bind (safe.position known (some tag)) fun _ _ => .pure trivial
  | visited | hover | active | focus | focusWithin | focusVisible | target =>
      exact .pure trivial

private theorem counted_gives {node : ν} (known : inside node) (tag : String)
    (counting : Counting) :
    Gives bad (fun _ => True) (counted view node tag counting) := by
  cases counting with
  | children | childrenFromEnd =>
      exact .bind (safe.position known none) fun _ _ => .pure trivial
  | ofType | ofTypeFromEnd =>
      exact .bind (safe.position known (some tag)) fun _ _ => .pure trivial

/-! ## Candidates -/

private theorem candidates_gives {node : ν} (known : inside node)
    (combinator : Combinator) :
    Gives bad (∀ choice ∈ ·, inside choice) (candidates view node combinator) := by
  cases combinator with
  | descendant => exact safe.elementAncestors known
  | child =>
      refine .bind (safe.parentElement known) fun parent found => .pure ?_
      simpa using found
  | nextSibling =>
      refine .bind (safe.previousElements known) fun elements found => .pure ?_
      exact fun choice member => found choice (List.mem_of_mem_take member)
  | laterSibling => exact safe.previousElements known

private theorem withDescendants_gives {siblings : List ν}
    (known : ∀ sibling ∈ siblings, inside sibling) :
    Gives bad (∀ element ∈ ·, inside element) (withDescendants view siblings) := by
  unfold withDescendants
  induction siblings with
  | nil => exact .pure (by simp)
  | cons sibling rest induction =>
      obtain ⟨first, others⟩ := List.forall_mem_cons.mp known
      have below : Gives bad (∀ element ∈ ·, inside element) (do
          return sibling :: (← view.descendantElements sibling)) :=
        .bind (safe.descendantElements first) fun _ found =>
          .pure (List.forall_mem_cons.mpr ⟨first, found⟩)
      refine .bind below fun found here => ?_
      exact .bind (induction others) fun further there =>
        .pure (List.forall_mem_append.mpr ⟨here, there⟩)

theorem region_gives {node : ν} (known : inside node) (anchor : Combinator)
    (single : Bool) :
    Gives bad (∀ element ∈ ·, inside element) (region view anchor single node) := by
  cases anchor with
  | descendant =>
      rw [region.eq_1]
      exact safe.descendantElements known
  | child =>
      cases single with
      | true => exact safe.childElements known
      | false => exact safe.descendantElements known
  | nextSibling =>
      cases single with
      | true =>
          refine .bind (safe.nextElements known) fun elements found => .pure ?_
          exact fun element member => found element (List.mem_of_mem_take member)
      | false =>
          exact .bind (safe.nextElements known) fun _ => withDescendants_gives safe
  | laterSibling =>
      cases single with
      | true => exact safe.nextElements known
      | false =>
          exact .bind (safe.nextElements known) fun _ => withDescendants_gives safe

private theorem related_gives {node : ν} (known : inside node) (anchor : Combinator)
    (element : ν) :
    Gives bad (fun _ => True) (related view anchor element node) := by
  cases anchor with
  | descendant => exact safe.isBelow element known
  | child => exact .bind (safe.parent known) fun _ _ => .pure trivial
  | nextSibling => exact .bind (safe.previousElements known) fun _ _ => .pure trivial
  | laterSibling => exact .bind (safe.previousElements known) fun _ _ => .pure trivial

end

/-! ## Attempts -/

omit [DecidableEq ν] in
private theorem search_gives {bad : MatchError → Prop}
    {attempt : ν → Except MatchError Attempt} {choices : List ν}
    (tried : ∀ choice ∈ choices, Gives bad (fun _ => True) (attempt choice))
    (combinator : Combinator) :
    Gives bad (fun _ => True) (search attempt combinator choices) := by
  induction choices with
  | nil => exact .pure trivial
  | cons choice rest induction =>
      obtain ⟨first, others⟩ := List.forall_mem_cons.mp tried
      refine .bind first fun result _ => ?_
      split
      · exact .pure trivial
      · exact induction others

/-- A matcher that has no bad failures on chains up to a depth. -/
def Serves (bad : MatchError → Prop) (inside : ν → Prop) (levels : Nat)
    (attempt : ChainMatcher ν) : Prop :=
  ∀ compound left node scope, inside node →
    max (Compound.depth compound) (Chain.depthLeft left) < levels →
      Gives bad (fun _ => True) (attempt compound left node scope)

section

variable {bad : MatchError → Prop} {inside : ν → Prop} {levels : Nat}
  {attempt : ChainMatcher ν} (serves : Serves bad inside levels attempt)
  {node : ν} (known : inside node)

include serves

omit [DecidableEq ν] in
theorem Serves.chain {chain : Chain} (fits : chain.depth ≤ levels) {node : ν}
    (known : inside node) (scope : Option (Scope ν)) :
    Gives bad (fun _ => True) (attempt chain.subject chain.left node scope) := by
  obtain ⟨subject, left, anchor⟩ := chain
  rw [Chain.depth] at fits
  exact serves _ _ _ _ known fits

omit [DecidableEq ν] in
include known in
private theorem anyChain_gives {selector : Selector}
    (fits : Selector.depth selector ≤ levels) :
    Gives bad (fun _ => True) (anyChain attempt node selector) := by
  induction selector with
  | nil => exact .pure trivial
  | cons chain rest induction =>
      rw [Selector.depth, Nat.max_le] at fits
      refine .bind (serves.chain fits.1 known none) fun outcome _ => ?_
      split
      · exact .pure trivial
      · exact induction fits.2

omit [DecidableEq ν] in
theorem anyCandidate_gives {chain : Chain} (fits : chain.depth ≤ levels)
    (scope : Scope ν) {choices : List ν} (known : ∀ choice ∈ choices, inside choice) :
    Gives bad (fun _ => True) (anyCandidate attempt chain scope choices) := by
  induction choices with
  | nil => exact .pure trivial
  | cons choice rest induction =>
      obtain ⟨first, others⟩ := List.forall_mem_cons.mp known
      refine .bind (serves.chain fits first scope) fun outcome _ => ?_
      split
      · exact .pure trivial
      · exact induction others

variable {view : TreeView ν} (safe : view.Safe bad inside)
include safe known

theorem has_gives {selector : Selector} (fits : Selector.depth selector ≤ levels) :
    Gives bad (fun _ => True) (has view attempt node selector) := by
  induction selector with
  | nil => exact .pure trivial
  | cons chain rest induction =>
      rw [Selector.depth, Nat.max_le] at fits
      refine .bind (region_gives safe known _ _) fun choices found => ?_
      refine .bind (anyCandidate_gives serves fits.1 _ found) fun answer _ => ?_
      split
      · exact .pure trivial
      · exact induction fits.2

private theorem simpleHolds_gives (tag : String) {simple : Simple}
    (fits : simple.depth ≤ levels) :
    Gives bad (fun _ => True) (simpleHolds view attempt node tag simple) := by
  cases simple with
  | type | universal | pseudoElement => exact .pure trivial
  | id name => exact .bind (safe.id known) fun _ _ => .pure trivial
  | className name => exact safe.hasClass name known
  | «attribute» test =>
      exact .bind (safe.attributeValue test.name known) fun _ _ => .pure trivial
  | plain pseudoClass => exact plainHolds_gives safe known tag pseudoClass
  | nth counting formula =>
      exact .bind (counted_gives safe known tag counting) fun _ _ => .pure trivial
  | functional function argument =>
      rw [Simple.depth] at fits
      cases function with
      | is => exact anyChain_gives serves known fits
      | not => exact .bind (anyChain_gives serves known fits) fun _ _ => .pure trivial
      | has => exact has_gives serves known safe fits

private theorem allHold_gives (tag : String) {compound : Compound}
    (fits : Compound.depth compound ≤ levels) :
    Gives bad (fun _ => True) (allHold view attempt node tag compound) := by
  induction compound with
  | nil => exact .pure trivial
  | cons simple rest induction =>
      rw [Compound.depth, Nat.max_le] at fits
      refine .bind (simpleHolds_gives serves known safe tag fits.1) fun holds _ => ?_
      split
      · exact induction fits.2
      · exact .pure trivial

private theorem compoundHolds_gives {compound : Compound}
    (fits : Compound.depth compound ≤ levels) :
    Gives bad (fun _ => True) (compoundHolds view attempt compound node) := by
  refine .bind (safe.tagName known) fun tag _ => ?_
  split
  · exact .pure trivial
  · exact allHold_gives serves known safe _ fits

end

section

variable {view : TreeView ν} {bad : MatchError → Prop} {inside : ν → Prop}
  (safe : view.Safe bad inside)
include safe

/-- Attempts serve all chains that are no deeper than they may go, and deeper ones, too,
if it is not bad to exceed the limit. -/
theorem attempt_serves_levels (limit : Nat) {remaining levels : Nat}
    (enough : levels ≤ remaining ∨ ¬ bad (.depthExceeded limit)) :
    Serves bad inside levels (attempt view limit remaining) := by
  induction remaining generalizing levels with
  | zero =>
      intro compound left node scope known fits
      rcases enough with none | allowed
      · omega
      · exact allowed
  | succ remaining induction =>
      intro compound left node scope known fits
      cases levels with
      | zero => exact (Nat.not_lt_zero _ fits).elim
      | succ levels =>
          have inner := induction (enough.imp_left Nat.le_of_succ_le_succ)
          obtain ⟨fitsOwn, fitsLeft⟩ := Nat.max_le.mp (Nat.le_of_lt_succ fits)
          simp only [attempt]
          refine .bind (compoundHolds_gives inner known safe fitsOwn) fun meets _ => ?_
          split
          · split
            · exact .pure trivial
            · refine .bind (related_gives safe known _ _) fun relates _ => ?_
              split
              · exact .pure trivial
              · exact .pure trivial
            · refine .bind (candidates_gives safe known _) fun choices found => ?_
              refine search_gives (fun choice member => ?_) _
              rw [Chain.depthLeft] at fitsLeft
              exact inner _ _ _ _ (found choice member) fitsLeft
          · exact .pure trivial

theorem attempt_serves (limit remaining : Nat) :
    Serves bad inside remaining (attempt view limit remaining) :=
  attempt_serves_levels safe limit (Or.inl (Nat.le_refl remaining))

/-- With as many levels as a selector is deep, matching has no bad failures. -/
theorem accepts_gives {maxDepth : Nat} {selector : Selector}
    (fits : Selector.depth selector ≤ maxDepth) {node : ν} (known : inside node) :
    Gives bad (fun _ => True) (selector.accepts view maxDepth node) :=
  anyChain_gives (attempt_serves safe maxDepth maxDepth) known fits

/-- Whatever the levels, matching has no bad failures but that it exceeds the limit. -/
theorem accepts_gives_of_allowed {maxDepth : Nat}
    (allowed : ¬ bad (.depthExceeded maxDepth)) (selector : Selector) {node : ν}
    (known : inside node) :
    Gives bad (fun _ => True) (selector.accepts view maxDepth node) :=
  anyChain_gives (attempt_serves_levels safe maxDepth (Or.inr allowed)) known
    (Nat.le_refl (Selector.depth selector))

end

end Matching

end TreeSelectors
