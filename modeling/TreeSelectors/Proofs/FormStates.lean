import Mathlib.Tactic.ByContra
import TreeSelectors.Proofs.Decisions

/-!
# Disabled elements

An element is disabled by an attribute of its own, as an option by the group around it,
or by a fieldset anywhere above it.  A fieldset spares what is inside its first legend;
another fieldset further out may still disable it.  `:disabled` asks for exactly
that, and `:enabled` for the opposite.
-/

namespace TreeSelectors

namespace Forest

section

variable {ν : Type} (forest : Forest ν)

/-- Whether a node is an element with a tag; the case of ASCII letters does not
count. -/
def hasTag (name : String) (node : ν) : Bool :=
  (forest.tag node).any (Text.sameFolded · name)

/-- Whether a node has the attribute `disabled`, with any value. -/
def isMarked (node : ν) : Bool :=
  (forest.attributeValue node "disabled").isSome

/-- The first legend among the children of a node. -/
def firstLegend? (node : ν) : Option ν :=
  (forest.children node).find? (forest.hasTag "legend")

/-- Whether a node is a child of a marked fieldset, but not its first legend. -/
def OutsideLegend (child : ν) : Prop :=
  ∃ fieldset, forest.hasTag "fieldset" fieldset ∧ forest.isMarked fieldset ∧
    child ∈ forest.children fieldset ∧ forest.firstLegend? fieldset ≠ some child

/-- The ways in which a node can be disabled. -/
inductive Disabled (node : ν) : Prop where
  /-- A control that is marked itself. -/
  | control {name : String} :
      name ∈ Alias.controls → forest.hasTag name node → forest.isMarked node →
      Disabled node
  /-- An option in a group that is marked. -/
  | grouped {group : ν} :
      forest.hasTag "option" node → forest.parent node = some group →
      forest.hasTag "optgroup" group → forest.isMarked group → Disabled node
  /-- A child of a marked fieldset other than its first legend, or a node below
  one. -/
  | enclosed {child : ν} :
      forest.OutsideLegend child → child = node ∨ forest.Above child node →
      Disabled node

end

variable {ν : Type} {forest : Forest ν} {node : ν} {name : String}

theorem hasTag_iff : forest.hasTag name node = true ↔
    ∃ tag, forest.tag node = some tag ∧ Text.sameFolded tag name := by
  simp only [hasTag, Option.any_eq_true]

theorem isElement_of_hasTag (has : forest.hasTag name node) :
    forest.isElement node = true := by
  obtain ⟨tag, own, -⟩ := hasTag_iff.mp has
  rw [isElement, own]
  rfl

/-- The elements of the type of a node have each of its tags. -/
theorem sameTag_eq_hasTag (has : forest.hasTag name node) :
    forest.sameTag node = forest.hasTag name := by
  obtain ⟨tag, own, same⟩ := hasTag_iff.mp has
  simp only [Text.sameFolded, decide_eq_true_eq] at same
  funext other
  simp only [sameTag, hasTag, own]
  cases forest.tag other with
  | none => rfl
  | some otherTag => simp [Text.sameFolded, same]

/-- A child above other nodes is an element. -/
theorem InnerElements.isElement_of_above (inner : forest.InnerElements) {child parent : ν}
    (link : forest.parent child = some parent) (above : forest.Above child node) :
    forest.isElement child = true := by
  obtain ⟨below, lower, -⟩ := Above.child_iff.mp above
  by_contra plain
  rw [inner lower (Bool.eq_false_iff.mpr plain)] at link
  cases link

variable [DecidableEq ν]

/-- A child is the first one with a tag if it has the tag and is the first element of
its type. -/
theorem Consistent.find?_hasTag_eq_some_iff (consistent : forest.Consistent)
    {parent child : ν} (link : forest.parent child = some parent) :
    (forest.children parent).find? (forest.hasTag name) = some child ↔
      forest.hasTag name child ∧ PlainClass.Holds forest child .firstOfType := by
  have none_before (tagged : forest.hasTag name child) :
      PlainClass.Holds forest child .firstOfType ↔
        ∀ sibling ∈ forest.before child, forest.hasTag name sibling ≠ true := by
    rw [PlainClass.Holds, Counting.passed, sameTag_eq_hasTag tagged,
      List.filter_eq_nil_iff]
  rw [List.find?_eq_some_iff_append]
  constructor
  · intro found
    obtain ⟨tagged, front, back, split, skipped⟩ := found
    refine ⟨tagged, (none_before tagged).mpr fun sibling member => ?_⟩
    rw [consistent.before_eq split] at member
    simpa using skipped sibling member
  · intro first
    obtain ⟨tagged, first⟩ := first
    refine ⟨tagged, _, _, consistent.children_eq link, fun sibling member => ?_⟩
    simpa using (none_before tagged).mp first sibling member

end Forest

/-! ## The parts of the selector -/

section

variable {ν : Type} [DecidableEq ν] {forest : Forest ν} {node : ν}

@[simp] theorem Simple.holds_type_iff {name : String} :
    (Simple.type name).Holds forest node ↔ forest.hasTag name node = true := by
  rw [Simple.Holds, Forest.hasTag_iff]

@[simp] theorem Simple.holds_present_iff {name : String} :
    (Simple.attribute (.present name)).Holds forest node ↔
      (forest.attributeValue node name).isSome = true := by
  rw [Simple.Holds]
  simp only [AttributeTest.present]
  cases forest.attributeValue node name with
  | none => exact iff_of_false (by simp [AttributeTest.accepts]) (by simp)
  | some value => exact iff_of_true rfl rfl

namespace Alias

@[simp] theorem holds_disabledTest_iff :
    Simple.Holds forest disabledTest node ↔ forest.isMarked node = true :=
  Simple.holds_present_iff

@[simp] theorem holds_disabledFieldset_iff :
    Compound.Holds forest disabledFieldset node ↔
      forest.hasTag "fieldset" node = true ∧ forest.isMarked node = true := by
  simp [disabledFieldset]

/-- Among the children of a node, all but the first legend are none. -/
theorem holds_noFirstLegend_iff (consistent : forest.Consistent) {parent child : ν}
    (link : forest.parent child = some parent) :
    Simple.Holds forest noFirstLegend child ↔
      forest.firstLegend? parent ≠ some child := by
  have first : forest.firstLegend? parent = some child ↔
      forest.isElement child ∧ forest.hasTag "legend" child ∧
        PlainClass.Holds forest child .firstOfType := by
    rw [Forest.firstLegend?, consistent.find?_hasTag_eq_some_iff link]
    exact (and_iff_right_of_imp fun first => Forest.isElement_of_hasTag first.1).symm
  simp [noFirstLegend, first]

@[simp] theorem holds_types_iff {names : List String} :
    Selector.Holds forest (names.map fun name => ⟨[.type name], [], none⟩) node ↔
      ∃ name ∈ names, forest.hasTag name node = true := by
  induction names with
  | nil => simp
  | cons name rest induction =>
      simp [induction, and_iff_right_of_imp Forest.isElement_of_hasTag]

/-- The conditions on a child of a marked fieldset. -/
theorem outsideLegend_iff (consistent : forest.Consistent) {child : ν} :
    Simple.Holds forest noFirstLegend child ∧
        Chain.Links forest (fun _ => True) [(.child, disabledFieldset)] child ↔
      forest.OutsideLegend child := by
  simp only [Chain.Links, Combinator.Relates, holds_disabledFieldset_iff, and_true]
  constructor
  · intro outside
    obtain ⟨noLegend, fieldset, -, link, isFieldset, marked⟩ := outside
    exact ⟨fieldset, isFieldset, marked, consistent.mem_children_iff.mpr link,
      (holds_noFirstLegend_iff consistent link).mp noLegend⟩
  · intro outside
    obtain ⟨fieldset, isFieldset, marked, member, noLegend⟩ := outside
    have link := consistent.mem_children_iff.mp member
    exact ⟨(holds_noFirstLegend_iff consistent link).mpr noLegend, fieldset,
      Forest.isElement_of_hasTag isFieldset, link, isFieldset, marked⟩

/-! ## The alternatives of the selector -/

private theorem holds_control_iff (element : forest.isElement node) :
    Chain.Holds forest (fun _ => True)
        ⟨[.functional .is (controls.map fun name => ⟨[.type name], [], none⟩),
          disabledTest], [], none⟩ node ↔
      (∃ name ∈ controls, forest.hasTag name node = true) ∧
        forest.isMarked node = true := by
  simp [element]

private theorem holds_grouped_iff :
    Chain.Holds forest (fun _ => True)
        ⟨[.type "option"], [(.child, [.type "optgroup", disabledTest])], none⟩ node ↔
      forest.hasTag "option" node = true ∧ ∃ group, forest.parent node = some group ∧
        forest.hasTag "optgroup" group = true ∧ forest.isMarked group = true := by
  rw [Chain.Holds, Chain.Links]
  simp only [Compound.holds_cons_iff, Compound.holds_nil, Chain.links_nil_iff,
    Combinator.Relates, Simple.holds_type_iff, holds_disabledTest_iff, and_true]
  constructor
  · intro holds
    obtain ⟨-, option, group, -, link, tagged⟩ := holds
    exact ⟨option, group, link, tagged⟩
  · intro grouped
    obtain ⟨option, group, link, tagged, marked⟩ := grouped
    exact ⟨Forest.isElement_of_hasTag option, option, group,
      Forest.isElement_of_hasTag tagged, link, tagged, marked⟩

private theorem holds_enclosed_iff (consistent : forest.Consistent)
    (element : forest.isElement node) :
    Chain.Holds forest (fun _ => True)
        ⟨[noFirstLegend], [(.child, disabledFieldset)], none⟩ node ↔
      forest.OutsideLegend node := by
  simp [Chain.Holds, element, outsideLegend_iff consistent]

private theorem holds_enclosed_below_iff (consistent : forest.Consistent)
    (inner : forest.InnerElements) (element : forest.isElement node) :
    Chain.Holds forest (fun _ => True)
        ⟨[.universal], [(.descendant, [noFirstLegend]), (.child, disabledFieldset)],
          none⟩ node ↔
      ∃ child, forest.Above child node ∧ forest.OutsideLegend child := by
  rw [Chain.Holds, Chain.Links]
  simp only [Compound.holds_cons_iff, Compound.holds_nil, Simple.holds_universal,
    and_true, true_and, element, Combinator.Relates, outsideLegend_iff consistent]
  refine exists_congr fun child => and_iff_right_of_imp fun enclosed => ?_
  obtain ⟨above, fieldset, -, -, member, -⟩ := enclosed
  exact inner.isElement_of_above (consistent.mem_children_iff.mp member) above

/-- The selector of `:disabled` holds of the disabled elements. -/
theorem holds_disabledSelector_iff (consistent : forest.Consistent)
    (inner : forest.InnerElements) (element : forest.isElement node) :
    Selector.Holds forest disabledSelector node ↔ forest.Disabled node := by
  rw [disabledSelector, Selector.holds_is_iff, and_iff_right element]
  simp only [Selector.holds_cons_iff, Selector.not_holds_nil, or_false,
    holds_control_iff element, holds_grouped_iff,
    holds_enclosed_iff consistent element,
    holds_enclosed_below_iff consistent inner element]
  constructor
  · intro holds
    rcases holds with ⟨⟨name, known, tagged⟩, marked⟩ |
      ⟨option, group, link, tagged, marked⟩ |
      outside | ⟨child, above, outside⟩
    · exact .control known tagged marked
    · exact .grouped option link tagged marked
    · exact .enclosed outside (Or.inl rfl)
    · exact .enclosed outside (Or.inr above)
  · intro disabled
    cases disabled with
    | control known tagged marked => exact Or.inl ⟨⟨_, known, tagged⟩, marked⟩
    | grouped option link tagged marked =>
        exact Or.inr (Or.inl ⟨option, _, link, tagged, marked⟩)
    | enclosed outside place =>
        rcases place with rfl | above
        · exact Or.inr (Or.inr (Or.inl outside))
        · exact Or.inr (Or.inr (Or.inr ⟨_, above, outside⟩))

/-- The selector of `:enabled` holds of the other elements. -/
theorem holds_enabledSelector_iff (consistent : forest.Consistent)
    (inner : forest.InnerElements) (element : forest.isElement node) :
    Selector.Holds forest enabledSelector node ↔ ¬ forest.Disabled node := by
  rw [enabledSelector, Selector.holds_not_iff, and_iff_right element,
    Selector.holds_is_iff, and_iff_right element,
    holds_disabledSelector_iff consistent inner element]

end Alias

end

/-! ## Loaded trees -/

namespace Tree

/-- The notation of a fieldset that is disabled, with an input in its legend and a
button after it. -/
def formText : String :=
  "[\"element\",\"fieldset\",\x7b\"disabled\":\"\"\x7d,[" ++
    "[\"element\",\"legend\",\x7b\x7d,[[\"element\",\"input\"]]]," ++
    "[\"element\",\"button\"]]]"

/-- The tree of that notation. -/
def form : Tree :=
  ⟨#[⟨.document, none, [1], none, none⟩,
    ⟨.element ⟨"fieldset", ⟨[("disabled", "")], by simp⟩⟩, some 0, [2, 4], none, none⟩,
    ⟨.element ⟨"legend", .empty⟩, some 1, [3], some 4, none⟩,
    ⟨.element ⟨"input", .empty⟩, some 2, [], none, none⟩,
    ⟨.element ⟨"button", .empty⟩, some 1, [], none, some 2⟩]⟩

end Tree

namespace CompiledSelector

/-- On a loaded tree, `:disabled` accepts an element exactly if it is disabled, and
`:enabled` exactly if it is not; within seven levels both have an answer. -/
theorem accepts_formStates_iff {text : String} {tree : Tree}
    (loaded : Tree.load text = .ok tree) {node : NodeId}
    (element : tree.forest.isElement node) (maxDepth : Nat) :
    ∃ disabled enabled,
      (compile ":disabled" {} maxDepth).1 = .ok disabled ∧
      (compile ":enabled" {} maxDepth).1 = .ok enabled ∧
      (∀ answer, disabled.accepts tree.view node = .ok answer →
        (answer = true ↔ tree.forest.Disabled node)) ∧
      (∀ answer, enabled.accepts tree.view node = .ok answer →
        (answer = true ↔ ¬ tree.forest.Disabled node)) ∧
      (7 ≤ maxDepth → (∃ answer, disabled.accepts tree.view node = .ok answer) ∧
        ∃ answer, enabled.accepts tree.view node = .ok answer) := by
  obtain ⟨table, built, ⟨disabled, foundDisabled, isDisabled, shallow⟩,
    enabled, foundEnabled, isEnabled, deeper⟩ := Alias.exists_table
  have callsDisabled : Calls ":disabled" "disabled" :=
    LookedUp.calls ⟨by decide, by decide, by decide, by decide⟩ (by decide)
      ⟨by decide, by decide⟩ (by decide)
  have callsEnabled : Calls ":enabled" "enabled" :=
    LookedUp.calls ⟨by decide, by decide, by decide, by decide⟩ (by decide)
      ⟨by decide, by decide⟩ (by decide)
  have rooted := Tree.rooted_of_load loaded
  have consistent := rooted.linked.consistent
  have meaning {selector : Selector} {answer : Bool}
      (answered : Selector.accepts tree.view maxDepth
        [⟨[.functional .is selector], [], none⟩] node = .ok answer) :
      answer = true ↔ Selector.Holds tree.forest selector node := by
    rw [Matching.accepts_iff rooted.linked.tells consistent rooted.innerElements answered]
    simp [element]
  have inTree : node ∈ Finset.range tree.size :=
    Finset.mem_range.mpr (Tree.lt_size_of_isElement element)
  refine ⟨_, _,
    compile_of_calls callsDisabled built foundDisabled (by rw [shallow]; decide) maxDepth,
    compile_of_calls callsEnabled built foundEnabled (by rw [deeper]; decide) maxDepth,
    ?_, ?_, ?_⟩
  · intro answer answered
    rw [meaning answered, isDisabled,
      Alias.holds_disabledSelector_iff consistent rooted.innerElements element]
  · intro answer answered
    rw [meaning answered, isEnabled,
      Alias.holds_enabledSelector_iff consistent rooted.innerElements element]
  · intro enough
    have answers {selector : Selector} (fits : Selector.depth selector ≤ 7) :
        ∃ answer, Selector.accepts tree.view maxDepth selector node = .ok answer :=
      rooted.linked.presents.exists_accepts inTree (Nat.le_trans fits enough)
    have depths :
        Selector.depth [⟨[.functional .is Alias.disabledSelector], [], none⟩] ≤ 7 ∧
          Selector.depth [⟨[.functional .is Alias.enabledSelector], [], none⟩] ≤ 7 := by
      decide
    rw [← isDisabled, ← isEnabled] at depths
    exact ⟨answers depths.1, answers depths.2⟩

/-- The button is disabled by the fieldset. -/
theorem accepts_formStates_iff_button :
    Tree.load Tree.formText = .ok Tree.form ∧ Tree.form.forest.isElement 4 ∧
      Tree.form.forest.Disabled 4 ∧
      ∃ disabled enabled,
        (compile ":disabled" {} defaultMaxDepth).1 = .ok disabled ∧
        (compile ":enabled" {} defaultMaxDepth).1 = .ok enabled ∧
        disabled.accepts Tree.form.view 4 = .ok true ∧
        enabled.accepts Tree.form.view 4 = .ok false := by
  have loaded : Tree.load Tree.formText = .ok Tree.form := by decide +kernel
  have element : Tree.form.forest.isElement 4 := by decide
  have outside : Tree.form.forest.OutsideLegend 4 :=
    ⟨1, by decide, by decide, by decide, by decide⟩
  have isDisabled : Tree.form.forest.Disabled 4 := .enclosed outside (Or.inl rfl)
  obtain ⟨disabled, enabled, compiled, compiledEnabled, means, meansEnabled, answers⟩ :=
    accepts_formStates_iff loaded element defaultMaxDepth
  obtain ⟨⟨answer, answered⟩, other, answeredEnabled⟩ := answers (by decide)
  obtain rfl : answer = true := (means answer answered).mpr isDisabled
  obtain rfl : other = false := Bool.eq_false_iff.mpr fun accepted =>
    (meansEnabled other answeredEnabled).mp accepted isDisabled
  exact ⟨loaded, element, isDisabled, disabled, enabled, compiled, compiledEnabled,
    answered, answeredEnabled⟩

end CompiledSelector

end TreeSelectors
