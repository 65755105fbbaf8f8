import TreeSelectors.Matching
import TreeSelectors.Proofs.Text.Words
import TreeSelectors.Proofs.Tree.Exposed

/-!
# Classes and ids as attributes

A class is a word of the attribute `class`, and an id is the value of the attribute
`id`.  On every view that answers the questions about them from these attributes, a
condition on a class or an id may be spelled out as a test of the attribute, wherever
it stands in a selector.
-/

namespace TreeSelectors

/-- The test that a class puts on the attribute `class`. -/
def AttributeTest.ofClass (name : String) : AttributeTest :=
  { name := "class", operator := .includes, value := some name, case := .unstated }

/-- The test that an id puts on the attribute `id`. -/
def AttributeTest.ofId (name : String) : AttributeTest :=
  { name := "id", operator := .equals, value := some name, case := .unstated }

/-! ## Selectors spelled out -/

mutual

/-- A condition in which classes and ids are tests of attributes. -/
def Simple.spelledOut : Simple → Simple
  | .id name => .attribute (.ofId name)
  | .className name => .attribute (.ofClass name)
  | .functional function argument =>
      .functional function (Selector.spelledOut argument)
  | other => other

def Compound.spelledOut : List Simple → List Simple
  | [] => []
  | simple :: rest => simple.spelledOut :: Compound.spelledOut rest

def Chain.leftSpelledOut :
    List (Combinator × List Simple) → List (Combinator × List Simple)
  | [] => []
  | (combinator, compound) :: further =>
      (combinator, Compound.spelledOut compound) :: Chain.leftSpelledOut further

def Chain.spelledOut : Chain → Chain
  | ⟨subject, left, anchor⟩ =>
      ⟨Compound.spelledOut subject, Chain.leftSpelledOut left, anchor⟩

/-- A selector in which classes and ids are tests of attributes, at any level of
nesting. -/
def Selector.spelledOut : List Chain → List Chain
  | [] => []
  | chain :: rest => chain.spelledOut :: Selector.spelledOut rest

end

@[simp] theorem Chain.subject_spelledOut (chain : Chain) :
    chain.spelledOut.subject = Compound.spelledOut chain.subject := by
  cases chain
  rfl

@[simp] theorem Chain.left_spelledOut (chain : Chain) :
    chain.spelledOut.left = Chain.leftSpelledOut chain.left := by
  cases chain
  rfl

@[simp] theorem Chain.anchor_spelledOut (chain : Chain) :
    chain.spelledOut.anchor = chain.anchor := by
  cases chain
  rfl

@[simp] theorem Chain.isEmpty_leftSpelledOut (left : List (Combinator × Compound)) :
    (Chain.leftSpelledOut left).isEmpty = left.isEmpty := by
  cases left with
  | nil => rfl
  | cons link further => rfl

/-! ## Views -/

variable {ν : Type}

/-- A view that knows classes and ids from the attributes of an element. -/
structure TreeView.ReadsAttributes (view : TreeView ν) : Prop where
  id (node : ν) : view.id node = view.attributeValue node "id"
  hasClass (node : ν) (name : String) :
    view.hasClass node name =
      (view.attributeValue node "class").map (·.any (Text.hasWord · name))

theorem Tree.view_readsAttributes (tree : Tree) : tree.view.ReadsAttributes where
  id node := by rw [view_id_eq, view_attributeValue_eq]
  hasClass node name := by
    rw [view_hasClass_eq, view_attributeValue_eq]
    rfl

variable [DecidableEq ν]

theorem TreeView.ofQueries_readsAttributes (queries : TreeQueries ν)
    (describe : ν → String) : (TreeView.ofQueries queries describe).ReadsAttributes where
  id _ := rfl
  hasClass _ _ := rfl

/-! ## Matching -/

namespace Matching

variable {view : TreeView ν} {attempt : ChainMatcher ν}

section

variable (reads : view.ReadsAttributes) (node : ν) (tag name : String)
include reads

/-- A class holds exactly where the test of the attribute does. -/
theorem simpleHolds_className :
    simpleHolds view attempt node tag (.className name) =
      simpleHolds view attempt node tag (.attribute (.ofClass name)) := by
  have named : (AttributeTest.ofClass name).name = "class" := rfl
  have words (value : Option String) :
      value.any (Text.hasWord · name) = (AttributeTest.ofClass name).accepts value := by
    cases value with
    | none => rfl
    | some actual => exact Text.hasWord_eq_compare actual name
  simp only [simpleHolds, reads.hasClass, words, named]
  cases view.attributeValue node "class" with
  | error failure => rfl
  | ok value => rfl

/-- An id holds exactly where the test of the attribute does. -/
theorem simpleHolds_id :
    simpleHolds view attempt node tag (.id name) =
      simpleHolds view attempt node tag (.attribute (.ofId name)) := by
  have same (value : Option String) :
      decide (value = some name) = (AttributeTest.ofId name).accepts value := by
    cases value with
    | none => rfl
    | some actual =>
        simp [AttributeTest.ofId, AttributeTest.accepts, AttributeTest.compare,
          AttributeTest.comparable, String.toList_inj]
  simp only [simpleHolds, reads.id, same]
  rfl

end

/-- An attempt that does not notice when classes and ids are spelled out. -/
def Overlooks (attempt : ChainMatcher ν) : Prop :=
  ∀ compound left node scope,
    attempt (Compound.spelledOut compound) (Chain.leftSpelledOut left) node scope =
      attempt compound left node scope

section

variable (overlooks : Overlooks attempt)
include overlooks

omit [DecidableEq ν] in
private theorem anyChain_spelledOut (node : ν) (selector : Selector) :
    anyChain attempt node (Selector.spelledOut selector) =
      anyChain attempt node selector := by
  induction selector with
  | nil => rfl
  | cons chain rest induction =>
      simp only [Selector.spelledOut, anyChain, Chain.subject_spelledOut,
        Chain.left_spelledOut, overlooks _ _ _ _, induction]

omit [DecidableEq ν] in
private theorem anyCandidate_spelledOut (chain : Chain) (scope : Scope ν)
    (candidates : List ν) :
    anyCandidate attempt chain.spelledOut scope candidates =
      anyCandidate attempt chain scope candidates := by
  induction candidates with
  | nil => rfl
  | cons candidate rest induction =>
      simp only [anyCandidate, Chain.subject_spelledOut, Chain.left_spelledOut,
        overlooks _ _ _ _, induction]

omit [DecidableEq ν] in
private theorem has_spelledOut (node : ν) (selector : Selector) :
    has view attempt node (Selector.spelledOut selector) =
      has view attempt node selector := by
  induction selector with
  | nil => rfl
  | cons chain rest induction =>
      simp only [Selector.spelledOut, has, Chain.anchor_spelledOut, Chain.left_spelledOut,
        Chain.isEmpty_leftSpelledOut, anyCandidate_spelledOut overlooks, induction]

variable (reads : view.ReadsAttributes)
include reads

private theorem simpleHolds_spelledOut (node : ν) (tag : String) (simple : Simple) :
    simpleHolds view attempt node tag simple.spelledOut =
      simpleHolds view attempt node tag simple := by
  cases simple with
  | id name => exact (simpleHolds_id reads node tag name).symm
  | className name => exact (simpleHolds_className reads node tag name).symm
  | functional function argument =>
      cases function with
      | is | not =>
          simp only [Simple.spelledOut, simpleHolds, anyChain_spelledOut overlooks]
      | has => simp only [Simple.spelledOut, simpleHolds, has_spelledOut overlooks]
  | type | universal | «attribute» | plain | nth | pseudoElement => rfl

private theorem compoundHolds_spelledOut (compound : Compound) (node : ν) :
    compoundHolds view attempt (Compound.spelledOut compound) node =
      compoundHolds view attempt compound node := by
  have all (tag : String) (simples : List Simple) :
      allHold view attempt node tag (Compound.spelledOut simples) =
        allHold view attempt node tag simples := by
    induction simples with
    | nil => rfl
    | cons simple rest induction =>
        simp only [Compound.spelledOut, allHold,
          simpleHolds_spelledOut overlooks reads, induction]
  simp only [compoundHolds, all]

end

/-- However deep the arguments of functions nest, no attempt notices. -/
theorem overlooks_attempt (reads : view.ReadsAttributes) (limit levels : Nat) :
    Overlooks (Matching.attempt view limit levels) := by
  induction levels with
  | zero => exact fun _ _ _ _ => rfl
  | succ levels induction =>
      intro compound left node scope
      simp only [Matching.attempt, compoundHolds_spelledOut induction reads]
      cases left with
      | nil => rfl
      | cons link further =>
          simp only [Chain.leftSpelledOut, induction _ _ _ _]

end Matching

/-- Trees know classes and ids from the attributes of their elements, and so does every
view that leaves them to what its other answers determine.  On such a view, a condition
on a class holds of a node exactly if the test of the attribute for the word does, and a
condition on an id exactly if the test for the value does, whatever the name is; and no
selector is answered differently when all its classes and ids are spelled out. -/
theorem Selector.accepts_spelledOut :
    (∀ tree : Tree, tree.view.ReadsAttributes) ∧
      (∀ {ν : Type} [DecidableEq ν] (queries : TreeQueries ν) (describe : ν → String),
        (TreeView.ofQueries queries describe).ReadsAttributes) ∧
      ∀ {ν : Type} [DecidableEq ν] (view : TreeView ν), view.ReadsAttributes →
        (∀ (attempt : Matching.ChainMatcher ν) (node : ν) (tag name : String),
          Matching.simpleHolds view attempt node tag (.className name) =
              Matching.simpleHolds view attempt node tag (.attribute (.ofClass name)) ∧
            Matching.simpleHolds view attempt node tag (.id name) =
              Matching.simpleHolds view attempt node tag (.attribute (.ofId name))) ∧
          ∀ (maxDepth : Nat) (selector : Selector) (node : ν),
            accepts view maxDepth (spelledOut selector) node =
              accepts view maxDepth selector node := by
  refine ⟨Tree.view_readsAttributes, TreeView.ofQueries_readsAttributes,
    fun view reads => ⟨fun attempt node tag name => ⟨?_, ?_⟩, ?_⟩⟩
  · exact Matching.simpleHolds_className reads node tag name
  · exact Matching.simpleHolds_id reads node tag name
  · intro maxDepth selector node
    exact Matching.anyChain_spelledOut (Matching.overlooks_attempt reads _ _) node selector

/-- A paragraph of two classes; its id has a blank in it. -/
def Tree.labelled : Tree :=
  ⟨#[⟨.document, none, [1], none, none⟩,
    ⟨.element ⟨"p", ⟨[("class", "note\tbig"), ("id", "a b")], by decide⟩⟩,
      some 0, [], none, none⟩]⟩

/-- A class, an id with a blank in it, and none of two names that no class has: one with
a tab in it and the empty one. -/
def labelSelector : Selector :=
  [⟨[.className "big", .id "a b",
    .functional .not [⟨[.className "note\tbig"], [], none⟩, ⟨[.className ""], [], none⟩]],
    [], none⟩]

/-- The whole of an attribute is an id, also with a blank in it, but no class then. -/
theorem Selector.accepts_spelledOut_labels :
    Tree.labelled.view.ReadsAttributes ∧
      accepts Tree.labelled.view 2 (spelledOut labelSelector) 1 = .ok true ∧
      Matching.simpleHolds Tree.labelled.view (Matching.attempt Tree.labelled.view 2 1) 1
        "p" (.attribute (.ofClass "note\tbig")) = .ok false := by
  obtain ⟨trees, -, spelled⟩ := accepts_spelledOut
  obtain ⟨conditions, selectors⟩ := spelled Tree.labelled.view (trees Tree.labelled)
  have accepted : accepts Tree.labelled.view 2 labelSelector 1 = .ok true := by
    decide +kernel
  have noClass : Matching.simpleHolds Tree.labelled.view
      (Matching.attempt Tree.labelled.view 2 1) 1 "p" (.className "note\tbig") =
        .ok false := by
    decide +kernel
  exact ⟨trees _, (selectors 2 labelSelector 1).trans accepted,
    ((conditions _ 1 "p" _).1.symm).trans noClass⟩

end TreeSelectors
