import TreeSelectors.Proofs.FormStates

/-!
# Selected options and checked inputs

An option is selected by an attribute of its own.  In a select that lets one option be
chosen and holds no option with the attribute, the first option among the children is
selected.  Selected options are checked, and so are inputs of two types that carry the
attribute for it.  `:selected` and `:checked` ask for exactly that.
-/

namespace TreeSelectors

namespace Forest

section

variable {ν : Type} (forest : Forest ν)

/-- Whether a node has an attribute, with any value. -/
def hasAttribute (name : String) (node : ν) : Bool :=
  (forest.attributeValue node name).isSome

/-- The first option among the children of a node. -/
def firstOption? (node : ν) : Option ν :=
  (forest.children node).find? (forest.hasTag "option")

/-- Selects that leave the choice of an option to the default: one option is to be
chosen, and no option at any depth is marked as selected. -/
structure Undecided (list : ν) : Prop where
  isSelect : forest.hasTag "select" list
  single : ¬ forest.hasAttribute "multiple" list
  unmarked {option : ν} : forest.Above list option → forest.hasTag "option" option →
    ¬ forest.hasAttribute "selected" option

/-- The ways in which an option can be selected. -/
inductive Selected (node : ν) : Prop where
  /-- An option that is marked itself. -/
  | marked :
      forest.hasTag "option" node → forest.hasAttribute "selected" node → Selected node
  /-- The first option of a select in which none is marked. -/
  | default {list : ν} :
      forest.parent node = some list → forest.firstOption? list = some node →
      forest.Undecided list → Selected node

/-- The ways in which a node can be checked. -/
inductive Checked (node : ν) : Prop where
  /-- An option that is selected. -/
  | selected : forest.Selected node → Checked node
  /-- An input of a type that can be checked, marked as checked.  The case of the type
  counts. -/
  | marked {kind : String} :
      forest.hasTag "input" node → forest.attributeValue node "type" = some kind →
      kind ∈ Alias.checkableTypes → forest.hasAttribute "checked" node → Checked node

end

end Forest

/-! ## The parts of the selectors -/

section

variable {ν : Type} [DecidableEq ν] {forest : Forest ν} {node : ν}

@[simp] theorem Simple.holds_equals_iff {name value : String} :
    (Simple.attribute ⟨name, .equals, some value, .unstated⟩).Holds forest node ↔
      forest.attributeValue node name = some value := by
  rw [Simple.Holds]
  cases forest.attributeValue node name with
  | none => exact iff_of_false (by simp [AttributeTest.accepts]) (by simp)
  | some actual =>
      simp only [AttributeTest.accepts, AttributeTest.compare, AttributeTest.comparable,
        Option.getD_some, decide_eq_true_eq, String.toList_inj, Option.some.injEq]

namespace Alias

/-- The condition that there is no marked option below a node. -/
theorem holds_noMarkedOption_iff (element : forest.isElement node) :
    Simple.Holds forest (.functional .not [⟨[.functional .has
        [⟨[.type "option", selectedTest], [], some .descendant⟩]], [], none⟩]) node ↔
      ∀ option, forest.Above node option → forest.hasTag "option" option →
        ¬ forest.hasAttribute "selected" option := by
  have asks : Compound.Holds forest
        [.functional .has [⟨[.type "option", selectedTest], [], some .descendant⟩]] node ↔
      ∃ option, forest.isElement option ∧ (forest.hasTag "option" option ∧
        forest.hasAttribute "selected" option) ∧ forest.Above node option := by
    simp [selectedTest, Combinator.Relates, Forest.hasAttribute]
  rw [Simple.holds_not_single_iff element, asks]
  constructor
  · intro none option below isOption marked
    exact none ⟨option, Forest.isElement_of_hasTag isOption, ⟨isOption, marked⟩, below⟩
  · rintro unmarked ⟨option, -, ⟨isOption, marked⟩, below⟩
    exact unmarked option below isOption marked

theorem holds_unmarkedSelect_iff (element : forest.isElement node) :
    Compound.Holds forest unmarkedSelect node ↔ forest.Undecided node := by
  have parts : Compound.Holds forest unmarkedSelect node ↔
      forest.hasTag "select" node ∧ ¬ forest.hasAttribute "multiple" node ∧
        ∀ option, forest.Above node option → forest.hasTag "option" option →
          ¬ forest.hasAttribute "selected" option := by
    rw [unmarkedSelect, Compound.holds_cons_iff, Compound.holds_cons_iff,
      Compound.holds_cons_iff, holds_noMarkedOption_iff element]
    simp [element, Forest.hasAttribute]
  rw [parts]
  constructor
  · rintro ⟨isSelect, single, unmarked⟩
    exact ⟨isSelect, single, unmarked _⟩
  · intro undecided
    exact ⟨undecided.isSelect, undecided.single, fun _ => undecided.unmarked⟩

/-! ## The selectors -/

/-- The default alternative, of an option. -/
theorem holds_default_iff (consistent : forest.Consistent)
    (isOption : forest.hasTag "option" node) :
    Chain.Holds forest (fun _ => True)
        ⟨[.plain .firstOfType], [(.child, unmarkedSelect)], none⟩ node ↔
      ∃ list, forest.parent node = some list ∧ forest.firstOption? list = some node ∧
        forest.Undecided list := by
  have parts : Chain.Holds forest (fun _ => True)
        ⟨[.plain .firstOfType], [(.child, unmarkedSelect)], none⟩ node ↔
      PlainClass.Holds forest node .firstOfType ∧ ∃ list, forest.isElement list ∧
        forest.parent node = some list ∧ Compound.Holds forest unmarkedSelect list := by
    simp [Chain.Holds, Chain.Links, Combinator.Relates,
      Forest.isElement_of_hasTag isOption]
  rw [parts]
  constructor
  · rintro ⟨first, list, element, link, undecided⟩
    exact ⟨list, link, (consistent.find?_hasTag_eq_some_iff link).mpr ⟨isOption, first⟩,
      (holds_unmarkedSelect_iff element).mp undecided⟩
  · rintro ⟨list, link, first, undecided⟩
    have element := Forest.isElement_of_hasTag undecided.isSelect
    exact ⟨((consistent.find?_hasTag_eq_some_iff link).mp first).2, list, element, link,
      (holds_unmarkedSelect_iff element).mpr undecided⟩

/-- The selector of `:selected` holds of the selected options. -/
theorem holds_selectedSelector_iff (consistent : forest.Consistent) :
    Selector.Holds forest selectedSelector node ↔ forest.Selected node := by
  have parts : Selector.Holds forest selectedSelector node ↔
      forest.isElement node ∧ forest.hasTag "option" node ∧
        (forest.isElement node ∧ forest.hasAttribute "selected" node ∨
          Chain.Holds forest (fun _ => True)
            ⟨[.plain .firstOfType], [(.child, unmarkedSelect)], none⟩ node) := by
    simp [selectedSelector, selectedTest, Forest.hasAttribute]
  rw [parts]
  constructor
  · rintro ⟨-, isOption, ⟨-, marked⟩ | byDefault⟩
    · exact .marked isOption marked
    · obtain ⟨list, link, first, undecided⟩ :=
        (holds_default_iff consistent isOption).mp byDefault
      exact .default link first undecided
  · intro selected
    cases selected with
    | marked isOption marked =>
        have element := Forest.isElement_of_hasTag isOption
        exact ⟨element, isOption, Or.inl ⟨element, marked⟩⟩
    | default link first undecided =>
        have isOption := ((consistent.find?_hasTag_eq_some_iff link).mp first).1
        exact ⟨Forest.isElement_of_hasTag isOption, isOption,
          Or.inr ((holds_default_iff consistent isOption).mpr
            ⟨_, link, first, undecided⟩)⟩

@[simp] theorem holds_inputOfTypes_iff :
    Selector.Holds forest (checkableTypes.map fun value => ⟨inputOfType value, [], none⟩)
        node ↔
      forest.hasTag "input" node = true ∧
        ∃ kind ∈ checkableTypes, forest.attributeValue node "type" = some kind := by
  have parts : Selector.Holds forest
        (checkableTypes.map fun value => ⟨inputOfType value, [], none⟩) node ↔
      ∃ kind ∈ checkableTypes, forest.isElement node ∧ forest.hasTag "input" node ∧
        forest.attributeValue node "type" = some kind := by
    simp [Selector.holds_iff, inputOfType]
  rw [parts]
  constructor
  · rintro ⟨kind, known, -, isInput, typed⟩
    exact ⟨isInput, kind, known, typed⟩
  · rintro ⟨isInput, kind, known, typed⟩
    exact ⟨kind, known, Forest.isElement_of_hasTag isInput, isInput, typed⟩

/-- The selector of `:checked` holds of the checked elements. -/
theorem holds_checkedSelector_iff (consistent : forest.Consistent)
    (element : forest.isElement node) :
    Selector.Holds forest checkedSelector node ↔ forest.Checked node := by
  have parts : Selector.Holds forest checkedSelector node ↔
      ((forest.hasTag "input" node ∧
          ∃ kind ∈ checkableTypes, forest.attributeValue node "type" = some kind) ∧
        forest.hasAttribute "checked" node) ∨ forest.Selected node := by
    simp [checkedSelector, element, Forest.hasAttribute,
      holds_selectedSelector_iff consistent]
  rw [parts]
  constructor
  · rintro (⟨⟨isInput, kind, known, typed⟩, marked⟩ | selected)
    · exact .marked isInput typed known marked
    · exact .selected selected
  · intro checked
    cases checked with
    | selected selected => exact Or.inr selected
    | marked isInput typed known marked =>
        exact Or.inl ⟨⟨isInput, _, known, typed⟩, marked⟩

end Alias

end

namespace Tree

/-- The notation of a select with an option behind a text, and another one in a
group. -/
def choiceText : String :=
  "[\"element\",\"SELECT\",\x7b\x7d,[" ++
    "[\"text\",\"one of\"]," ++
    "[\"element\",\"Option\"]," ++
    "[\"element\",\"optgroup\",\x7b\x7d,[[\"element\",\"option\"]]]]]"

/-- The tree of that notation. -/
def choice : Tree :=
  ⟨#[⟨.document, none, [1], none, none⟩,
    ⟨.element ⟨"SELECT", .empty⟩, some 0, [2, 3, 4], none, none⟩,
    ⟨.text "one of", some 1, [], some 3, none⟩,
    ⟨.element ⟨"Option", .empty⟩, some 1, [], some 4, some 2⟩,
    ⟨.element ⟨"optgroup", .empty⟩, some 1, [5], none, some 3⟩,
    ⟨.element ⟨"option", .empty⟩, some 4, [], none, none⟩]⟩

end Tree

namespace CompiledSelector

/-- On a loaded tree, `:selected` matches an element exactly if it is selected, and
`:checked` exactly if it is checked.  Six and eight levels suffice. -/
theorem decides_optionStates {text : String} {tree : Tree}
    (loaded : Tree.load text = .ok tree) {node : NodeId}
    (element : tree.forest.isElement node) :
    Decides ":selected" tree node 6 (tree.forest.Selected node) ∧
      Decides ":checked" tree node 8 (tree.forest.Checked node) := by
  have rooted := Tree.rooted_of_load loaded
  have consistent := rooted.linked.consistent
  have callsSelected : Calls ":selected" "selected" :=
    LookedUp.calls ⟨by decide, by decide, by decide, by decide⟩ (by decide)
      ⟨by decide, by decide⟩ (by decide)
  have callsChecked : Calls ":checked" "checked" :=
    LookedUp.calls ⟨by decide, by decide, by decide, by decide⟩ (by decide)
      ⟨by decide, by decide⟩ (by decide)
  constructor
  · exact (Decides.of_calls rooted element callsSelected
      (show (_, Alias.selectedSelector, 1) ∈ Alias.states by simp [Alias.states])
      (by decide)).congr (Alias.holds_selectedSelector_iff consistent)
  · exact (Decides.of_calls rooted element callsChecked
      (show (_, Alias.checkedSelector, 2) ∈ Alias.states by simp [Alias.states])
      (by decide)).congr (Alias.holds_checkedSelector_iff consistent element)

/-- The first option of the select is selected, and so it is checked. -/
theorem decides_optionStates_choice :
    Tree.load Tree.choiceText = .ok Tree.choice ∧ Tree.choice.forest.isElement 3 ∧
      Tree.choice.forest.Selected 3 ∧
      (∃ selected, (compile ":selected" {} defaultMaxDepth).1 = .ok selected ∧
        selected.accepts Tree.choice.view 3 = .ok true) ∧
      ∃ checked, (compile ":checked" {} defaultMaxDepth).1 = .ok checked ∧
        checked.accepts Tree.choice.view 3 = .ok true := by
  have loaded : Tree.load Tree.choiceText = .ok Tree.choice := by decide +kernel
  have element : Tree.choice.forest.isElement 3 := by decide
  have unmarked : ∀ option < Tree.choice.size,
      ¬ Tree.choice.forest.hasAttribute "selected" option := by
    decide
  have undecided : Tree.choice.forest.Undecided 1 :=
    ⟨by decide, by decide, fun _ isOption =>
      unmarked _ (Tree.lt_size_of_isElement (Forest.isElement_of_hasTag isOption))⟩
  have isSelected : Tree.choice.forest.Selected 3 :=
    .default (show _ = some 1 by decide) (by decide) undecided
  obtain ⟨decidesSelected, decidesChecked⟩ := decides_optionStates loaded element
  exact ⟨loaded, element, isSelected, decidesSelected.accepts isSelected (by decide),
    decidesChecked.accepts (.selected isSelected) (by decide)⟩

end CompiledSelector

end TreeSelectors
