import TreeSelectors.Alias.Builtin
import TreeSelectors.Proofs.Answer

/-!
# The built-in table

The definitions of the built-in aliases can be read, and those for the states of form
elements stand for the selectors that are written out here.
-/

namespace TreeSelectors.Alias

/-- The test of `[disabled]`. -/
def disabledTest : Simple :=
  .attribute (.present "disabled")

/-- The compound `fieldset[disabled]`. -/
def disabledFieldset : Compound :=
  [.type "fieldset", disabledTest]

/-- The condition `:not(legend:first-of-type)`. -/
def noFirstLegend : Simple :=
  .functional .not [⟨[.type "legend", .plain .firstOfType], [], none⟩]

/-- The tags of the elements that an attribute of their own can disable. -/
def controls : List String :=
  ["button", "input", "select", "textarea", "optgroup", "option", "fieldset"]

/-- What `:disabled` stands for. -/
def disabledSelector : Selector :=
  [⟨[.functional .is [
    ⟨[.functional .is (controls.map fun name => ⟨[.type name], [], none⟩),
      disabledTest], [], none⟩,
    ⟨[.type "option"], [(.child, [.type "optgroup", disabledTest])], none⟩,
    ⟨[noFirstLegend], [(.child, disabledFieldset)], none⟩,
    ⟨[.universal], [(.descendant, [noFirstLegend]), (.child, disabledFieldset)],
      none⟩]], [], none⟩]

/-- What `:enabled` stands for. -/
def enabledSelector : Selector :=
  [⟨[.functional .not [⟨[.functional .is disabledSelector], [], none⟩]], [], none⟩]

/-- The test of `[selected]`. -/
def selectedTest : Simple :=
  .attribute (.present "selected")

/-- The compound `select:not([multiple]):not(:has(option[selected]))`. -/
def unmarkedSelect : Compound :=
  [.type "select",
    .functional .not [⟨[.attribute (.present "multiple")], [], none⟩],
    .functional .not [⟨[.functional .has
      [⟨[.type "option", selectedTest], [], some .descendant⟩]], [], none⟩]]

/-- What `:selected` stands for. -/
def selectedSelector : Selector :=
  [⟨[.type "option", .functional .is [
    ⟨[selectedTest], [], none⟩,
    ⟨[.plain .firstOfType], [(.child, unmarkedSelect)], none⟩]], [], none⟩]

/-- The values of `type` that make an input one that can be checked. -/
def checkableTypes : List String :=
  ["radio", "checkbox"]

/-- The compound `input[type=...]`. -/
def inputOfType (value : String) : Compound :=
  [.type "input", .attribute ⟨"type", .equals, some value, .unstated⟩]

/-- What `:checked` stands for. -/
def checkedSelector : Selector :=
  [⟨[.functional .is [
    ⟨[.functional .is (checkableTypes.map fun value => ⟨inputOfType value, [], none⟩),
      .attribute (.present "checked")], [], none⟩,
    ⟨[.functional .is selectedSelector], [], none⟩]], [], none⟩]

/-- The selector that an entry of a table has, and its depth. -/
def summary (table : AliasTable) (name : String) : Option (Selector × Nat) :=
  (table.find? name).map fun entry => (entry.selector, entry.depth)

/-- The aliases for the states of form elements, with what they stand for and their
depth. -/
def states : List (String × Selector × Nat) :=
  [("disabled", disabledSelector, 1), ("enabled", enabledSelector, 2),
    ("selected", selectedSelector, 1), ("checked", checkedSelector, 2)]

/-- References between these aliases stay within the default limit. -/
theorem depth_le_of_mem {name : String} {selector : Selector} {depth : Nat}
    (listed : (name, selector, depth) ∈ states) :
    depth ≤ ({} : CompileLimits).maxAliasDepth := by
  have shallow : ∀ state ∈ states, state.2.2 ≤ 16 := by
    simp [states]
  exact shallow _ listed

private theorem summaries_table :
    table.map (fun table => states.map fun state => summary table state.1) =
      .ok (states.map fun state => some state.2) := by
  decide +kernel

/-- The built-in definitions make up a table, with these entries among others. -/
theorem exists_entries :
    ∃ built, table = .ok built ∧
      ∀ state ∈ states, ∃ entry, built.find? state.1 = some entry ∧
        entry.selector = state.2.1 ∧ entry.depth = state.2.2 := by
  have summaries := summaries_table
  revert summaries
  cases table with
  | error failure => exact fun impossible => by cases impossible
  | ok built =>
      intro summaries
      simp only [Except.map, Except.ok.injEq, List.map_inj_left] at summaries
      refine ⟨built, rfl, fun state member => ?_⟩
      obtain ⟨entry, found, same⟩ := Option.map_eq_some_iff.mp (summaries state member)
      exact ⟨entry, found, congrArg Prod.fst same, congrArg Prod.snd same⟩

/-- Two of the entries. -/
theorem exists_table :
    ∃ built, table = .ok built ∧
      (∃ entry, built.find? "disabled" = some entry ∧
        entry.selector = disabledSelector ∧ entry.depth = 1) ∧
      ∃ entry, built.find? "enabled" = some entry ∧
        entry.selector = enabledSelector ∧ entry.depth = 2 := by
  obtain ⟨built, isTable, entries⟩ := exists_entries
  exact ⟨built, isTable, entries ("disabled", disabledSelector, 1) (by simp [states]),
    entries ("enabled", enabledSelector, 2) (by simp [states])⟩

end TreeSelectors.Alias
