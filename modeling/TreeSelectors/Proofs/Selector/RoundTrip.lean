import TreeSelectors.Proofs.Alias.Builtin
import TreeSelectors.Proofs.Selector.Canonical

/-!
# Reading back what was written

Every selector whose parts have the right shape is read back from its canonical text,
whether it was ever read from a text or not, so that no two of them have the same
canonical text.
-/

namespace TreeSelectors

open Grammar Reading

/-- A selector with a shape that text can give it, whose names are not empty and
stay on one line.  Values of attributes and formulas are free. -/
structure Selector.Writable (selector : Selector) : Prop where
  nonempty : selector ≠ []
  formed : Selector.Formed false selector
  named : ∀ name ∈ Selector.names selector, IsName name

namespace Selector.Writable

variable {selector other : Selector}

theorem parse_text (writable : selector.Writable) {limits : CompileLimits}
    (fits : Selector.nesting selector ≤ limits.maxNesting) :
    (Selector.parse limits (Selector.text selector)).1 = .ok selector := by
  obtain ⟨table, built, -⟩ := Alias.exists_table
  refine Selector.parse_eq_ok_iff.mpr ⟨table, built, ?_⟩
  have named := writable.named
  exact (yields_read_text_iff writable.nonempty writable.formed
    fun name member => (named name member).1).mpr
      ⟨fits, fun name member => (named name member).2, rfl, rfl⟩

/-- Two selectors with one text would both be read from it. -/
theorem eq_of_text_eq (writable : selector.Writable) (otherWritable : other.Writable)
    (same : Selector.text other = Selector.text selector) : other = selector := by
  let limits : CompileLimits :=
    { maxNesting := max (Selector.nesting selector) (Selector.nesting other) }
  have read := writable.parse_text (show _ ≤ limits.maxNesting from Nat.le_max_left _ _)
  have otherRead :=
    otherWritable.parse_text (show _ ≤ limits.maxNesting from Nat.le_max_right _ _)
  rw [same, read] at otherRead
  exact (Except.ok.inj otherRead).symm

end Selector.Writable

/-- Parsing undoes printing: a selector of the right shape is parsed from its canonical
text if its arguments nest no deeper than allowed, and no other selector of such a shape
has the same text. -/
theorem Selector.parse_text_eq_self (selector : Selector) (writable : selector.Writable) :
    (∀ limits : CompileLimits, Selector.nesting selector ≤ limits.maxNesting →
      (Selector.parse limits (Selector.text selector)).1 = .ok selector) ∧
    ∀ other : Selector, other.Writable →
      Selector.text other = Selector.text selector → other = selector :=
  ⟨fun _ fits => writable.parse_text fits,
    fun _ otherWritable same => writable.eq_of_text_eq otherWritable same⟩

/-- A selector with names, values and numbers of every kind. -/
def Selector.varied : Selector :=
  [⟨[.type "1-é", .className "-",
      .attribute ⟨"a b", .contains, some "\"/*\\\n", .insensitive⟩,
      .functional .has [⟨[.universal], [(.child, [.nth .ofType ⟨-2147483648, -1⟩])],
        some .nextSibling⟩]],
    [(.laterSibling, [.pseudoElement "before"])], none⟩]

theorem Selector.writable_varied : Selector.varied.Writable where
  nonempty := by simp [varied]
  formed := by
    simp [varied, Selector.Formed, Chain.Formed, Chain.FormedLeft, Compound.Formed,
      Compound.FormedMore, Simple.Formed, Simple.isLeading, AttributeTest.Formed]
    decide
  named := by
    simp only [varied, Selector.names, Chain.names, Chain.namesLeft, Compound.names,
      Simple.names, IsName]
    decide

theorem Selector.parse_text_eq_self_varied :
    Selector.varied.Writable ∧
      (Selector.parse {} (Selector.text Selector.varied)).1 = .ok Selector.varied := by
  have fits : Selector.nesting Selector.varied ≤ ({} : CompileLimits).maxNesting := by
    decide
  exact ⟨Selector.writable_varied,
    (Selector.parse_text_eq_self Selector.varied Selector.writable_varied).1 {} fits⟩

end TreeSelectors
