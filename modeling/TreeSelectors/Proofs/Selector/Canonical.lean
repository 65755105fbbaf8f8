import TreeSelectors.Proofs.Alias.Building
import TreeSelectors.Proofs.Selector.Limits
import TreeSelectors.Proofs.Selector.LineFeeds

/-!
# Canonical text

The canonical text of a well-formed selector stands for that selector and for no
other, as long as its arguments do not nest too deep and every name is on one line.
-/

namespace TreeSelectors

open Grammar Reading

section

variable {σ : Type} {aliases : AliasSource σ} {known later : σ}
  {selector other : Selector} {maxNesting : Nat} {remarks : List Remark}

/-- The tokens of canonical text nest exactly as the selector does, and derive it
at all levels that suffice. -/
theorem scan_text (nonempty : selector ≠ []) (formed : Selector.Formed false selector)
    (named : ∀ name ∈ Selector.names selector, IsName name)
    (aliases : AliasSource σ) (known : σ) :
    ∃ segment stop, Token.scan (Selector.text selector) = segment ++ [stop] ∧
      stop.kind = .endOfInput ∧ Nests segment (Selector.nesting selector) ∧
      ∀ levels, Selector.nesting selector ≤ levels →
        Whole aliases levels known segment selector known := by
  have scans := @scans_list σ aliases known selector false [] nonempty formed named
    endsIdent_nil
  obtain ⟨segment, scanned, nests, derived⟩ := scans 0
  rw [List.append_nil, Token.scanFrom_nil] at scanned
  refine ⟨segment, ⟨.endOfInput, 0 + (Selector.write selector).length, []⟩, ?_, rfl,
    nests, derived⟩
  rw [Token.scan, Selector.text, String.toList_ofList]
  exact scanned

/-- Canonical text is read as the selector, or not at all: if arguments nest too deep,
or if a name has a line feed. -/
theorem yields_read_text_iff (nonempty : selector ≠ [])
    (formed : Selector.Formed false selector)
    (named : ∀ name ∈ Selector.names selector, name ≠ "") :
    Yields (Selector.read aliases maxNesting (Selector.text selector)) remarks known
        other later ↔
      Selector.nesting selector ≤ maxNesting ∧
        (∀ name ∈ Selector.names selector, '\n' ∉ name.toList) ∧
        selector = other ∧ known = later := by
  by_cases broken : HasLineFeed (Selector.names selector)
  · refine iff_of_false (not_yields_read_text nonempty formed named broken) ?_
    rintro ⟨-, sameLine, -⟩
    obtain ⟨name, member, breaks⟩ := broken
    exact sameLine name member breaks
  have named := isName_of_not_hasLineFeed named broken
  obtain ⟨segment, stop, scanned, stops, nests, derived⟩ :=
    scan_text nonempty formed named aliases known
  have reads (fits : Selector.nesting selector ≤ maxNesting) :
      Yields (Selector.read aliases maxNesting (Selector.text selector)) remarks known
        selector known :=
    Selector.Parser.readAll_yields_iff.mpr
      ⟨segment, [stop], scanned, stops, derived maxNesting fits⟩
  constructor
  · intro read
    obtain ⟨body, rest, split, ended, whole⟩ :=
      Selector.Parser.readAll_yields_iff.mp read
    obtain ⟨rfl, -⟩ := eq_of_goesOn (scanned.symm.trans split) stops nests.goesOn ended
      (Whole.goesOn whole)
    have fits := Whole.nesting_le whole
    rw [nests.nesting_eq] at fits
    exact ⟨fits, fun name member => (named name member).2, (reads fits).unique read⟩
  · intro expected
    obtain ⟨fits, -, rfl, rfl⟩ := expected
    exact reads fits

end

namespace Selector

/-- The canonical text of a selector that was parsed parses again exactly if its
arguments, those of expanded aliases included, do not nest deeper than allowed and no
name has a line feed, and then it stands for the same selector. -/
theorem parse_text_eq_ok_iff (limits : CompileLimits) (text : String)
    (selector other : Selector)
    (parsed : (Selector.parse limits text).1 = .ok selector) :
    (Selector.parse limits (Selector.text selector)).1 = .ok other ↔
      Selector.nesting selector ≤ limits.maxNesting ∧
        (∀ name ∈ Selector.names selector, '\n' ∉ name.toList) ∧ selector = other := by
  obtain ⟨table, built, read⟩ := parse_eq_ok_iff.mp parsed
  have keeps : KeepsSound (table.source limits.maxAliasDepth) fun _ => True :=
    AliasTable.source_keepsSound (AliasTable.build_sound built) limits.maxAliasDepth
  obtain ⟨-, nonempty, formed, names⟩ := sound_of_read keeps read trivial
  have reads := @yields_read_text_iff Unit (table.source limits.maxAliasDepth) () ()
    selector other limits.maxNesting [] nonempty formed names
  rw [parse_eq_ok_iff]
  constructor
  · intro expected
    obtain ⟨again, rebuilt, reread⟩ := expected
    cases built.symm.trans rebuilt
    obtain ⟨fits, sameLine, same, -⟩ := reads.mp reread
    exact ⟨fits, sameLine, same⟩
  · intro expected
    obtain ⟨fits, sameLine, rfl⟩ := expected
    exact ⟨table, built, reads.mpr ⟨fits, sameLine, rfl, rfl⟩⟩

/-- A selector within a number of `:is()`. -/
def within (selector : Selector) : Nat → Selector
  | 0 => selector
  | count + 1 => [⟨[.functional .is (within selector count)], [], none⟩]

private theorem names_within (selector : Selector) (count : Nat) :
    Selector.names (within selector count) = Selector.names selector := by
  induction count with
  | zero => rfl
  | succ count induction => simpa [within, Simple.names] using induction

/-- What `:parent` is defined as, `:not(:empty)`. -/
def notEmpty : Selector :=
  [⟨[.functional .not [⟨[.plain .empty], [], none⟩]], [], none⟩]

/-- An alias may stand where no further argument fits. -/
theorem parse_parent :
    (Selector.parse {} ":parent").1 = .ok (within notEmpty 1) ∧
    (Selector.parse {} (String.join
      (List.replicate 32 ":is(" ++ ":parent" :: List.replicate 32 ")"))).1 =
        .ok (within notEmpty 33) ∧
    (Selector.parse {} (Selector.text (within notEmpty 33))).1 =
      .error (.nestingTooDeep 32) := by
  decide +kernel

theorem parse_text_eq_ok_iff_parent :
    (Selector.parse {} ":parent").1 = .ok (within notEmpty 1) ∧
      (Selector.parse {} (Selector.text (within notEmpty 1))).1 =
        .ok (within notEmpty 1) := by
  have parsed := parse_parent.1
  have fits : Selector.nesting (within notEmpty 1) ≤ 32 := by decide
  exact ⟨parsed,
    (parse_text_eq_ok_iff {} ":parent" _ _ parsed).mpr ⟨fits, by decide, rfl⟩⟩

/-- A line feed in a name is written as a backslash at the end of a line. -/
theorem parse_lineFeed :
    (Selector.parse {} ".\\a ").1 = .ok [⟨[.className "\n"], [], none⟩] ∧
    Selector.text [⟨[.className "\n"], [], none⟩] = ".\\\n" ∧
    (Selector.parse {} ".\\\n").1 = .error (.unexpectedToken (.delim '\\') 1) := by
  decide +kernel

theorem not_parse_text_of_lineFeed :
    ¬ ∀ text selector, (Selector.parse {} text).1 = .ok selector →
      (Selector.parse {} (Selector.text selector)).1 = .ok selector := by
  intro reparses
  obtain ⟨parsed, written, refused⟩ := parse_lineFeed
  have again := reparses _ _ parsed
  rw [written] at again
  cases refused.symm.trans again

/-- Names on one line are not enough, since an expanded alias nests deeper than it was
written. -/
theorem not_parse_text_of_alias :
    ¬ ∀ text selector, (Selector.parse {} text).1 = .ok selector →
      (∀ name ∈ Selector.names selector, '\n' ∉ name.toList) →
        (Selector.parse {} (Selector.text selector)).1 = .ok selector := by
  intro reparses
  obtain ⟨-, parsed, tooDeep⟩ := parse_parent
  have sameLine : ∀ name ∈ Selector.names (within notEmpty 33), '\n' ∉ name.toList := by
    rw [names_within]
    decide
  cases tooDeep.symm.trans (reparses _ _ parsed sameLine)

end Selector

end TreeSelectors
