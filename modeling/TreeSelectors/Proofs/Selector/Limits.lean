import TreeSelectors.CompiledSelector
import TreeSelectors.Proofs.Alias.Building
import TreeSelectors.Proofs.Selector.Tracking
import TreeSelectors.Proofs.Selector.Transfer

/-!
# What limits do to parsing

Limits decide whether a text is parsed, but not what it stands for: with one table of
aliases, all limits that let a text through agree on the selector.  Which limits do so can
be told from the nesting of the text and from the aliases that are written in it.
-/

namespace TreeSelectors

open Grammar Reading

theorem AliasTable.source_matched (table : AliasTable) {limit more : Nat}
    (fits : limit ≤ more) :
    Matched (table.source limit) (table.source more) (fun _ => True) () := by
  intro name known selector later expanded final
  obtain ⟨entry, found, shallow, rfl⟩ := AliasTable.source_expand_iff.mp expanded
  exact ⟨trivial,
    AliasTable.source_expand_iff.mpr ⟨entry, found, Nat.le_trans shallow fits, rfl⟩⟩

namespace AliasTable

/-- The aliases that are written among some tokens. -/
def written (table : AliasTable) (tokens : List Token) : List AliasEntry :=
  (Token.called tokens).filterMap table.find?

variable {table : AliasTable} {limit more : Nat}

/-- An alias means the same within all limits that it fits. -/
theorem source_expand_eq {name : String} {entry : AliasEntry}
    (found : table.find? name = some entry) (fits : entry.depth ≤ limit)
    (fitsMore : entry.depth ≤ more) :
    (table.source limit).expand name = (table.source more).expand name := by
  simp only [source, found, if_neg (Nat.not_lt.mpr fits),
    if_neg (Nat.not_lt.mpr fitsMore)]

end AliasTable

/-- The limits that let through what either of two lets through. -/
def CompileLimits.join (limits others : CompileLimits) : CompileLimits where
  maxNesting := max limits.maxNesting others.maxNesting
  maxAliasDepth := max limits.maxAliasDepth others.maxAliasDepth

/-- The failures of parsing within limits that looser ones may spare. -/
def CompileLimits.Refuses (limits : CompileLimits) (failure : ParseError) : Prop :=
  failure = .nestingTooDeep limits.maxNesting ∨ ∃ chain, failure = .aliasCycle chain

/-- The aliases that are too deep for the tighter limits are refused by them. -/
theorem AliasTable.source_tracks (table : AliasTable) (limits : CompileLimits)
    {more : Nat} (fits : limits.maxAliasDepth ≤ more) (names : List String) :
    (table.source limits.maxAliasDepth).Tracks limits.Refuses (table.source more)
      names where
  isAlias := rfl
  expand name _ := by
    refine .expand (fun _ failure refused => ?_) fun _ _ found _ answered => ?_
    · simp only [source] at refused
      split at refused
      · cases refused
      · split at refused
        · cases refused
          exact .inr ⟨_, rfl⟩
        · cases refused
    · simp only [source] at answered ⊢
      split at answered
      · cases answered
        exact ⟨none, (), rfl, rfl⟩
      · rename_i entry _
        split at answered
        · cases answered
        · rename_i notDeep
          cases answered
          have shallow := Nat.le_trans (Nat.not_lt.mp notDeep) fits
          rw [if_neg (Nat.not_lt.mpr shallow)]
          exact ⟨some entry.selector, (), rfl, rfl⟩

namespace Selector

variable {table : AliasTable} {limits others : CompileLimits} {text : String}
  {selector other : Selector}

theorem parseWith_eq_ok_iff :
    (Selector.parseWith (.ok table) limits text).1 = .ok selector ↔
      Yields (Selector.read (table.source limits.maxAliasDepth) limits.maxNesting
        text) [] () selector () := by
  simp only [Selector.parseWith, Yields]
  split
  · rename_i found progress answered
    constructor
    · intro same
      cases same
      exact ⟨progress.remarks, answered⟩
    · intro reads
      obtain ⟨others, again⟩ := reads
      cases answered.symm.trans again
      rfl
  · rename_i failure progress answered
    constructor
    · intro same
      cases same
    · intro reads
      obtain ⟨others, again⟩ := reads
      cases answered.symm.trans again

theorem parse_eq_ok_iff :
    (Selector.parse limits text).1 = .ok selector ↔
      ∃ table, Alias.table = .ok table ∧
        Yields (Selector.read (table.source limits.maxAliasDepth) limits.maxNesting
          text) [] () selector () := by
  rw [Selector.parse]
  generalize Alias.table = aliases
  cases aliases with
  | error failure => simp [Selector.parseWith]
  | ok table => simp only [parseWith_eq_ok_iff, Except.ok.injEq, exists_eq_left']

/-- If a text is parsed within some limits, then it is parsed within all others that its
nesting and the aliases written in it fit. -/
theorem parseWith_eq_ok_iff_fits
    (parsed : (Selector.parseWith (.ok table) limits text).1 = .ok selector) :
    (Selector.parseWith (.ok table) others text).1 = .ok selector ↔
      Token.nesting (Token.scan text) ≤ others.maxNesting ∧
        ∀ entry ∈ table.written (Token.scan text),
          entry.depth ≤ others.maxAliasDepth := by
  rw [parseWith_eq_ok_iff] at parsed ⊢
  obtain ⟨segment, stop, scanned, stops, derived⟩ := exists_derivation parsed
  obtain ⟨sameNesting, sameCalled⟩ := Whole.end_eq derived stops
  rw [AliasTable.written, scanned, sameNesting, sameCalled]
  constructor
  · intro again
    obtain ⟨other, last, split, -, again⟩ := exists_derivation again
    obtain ⟨rfl, -⟩ := List.append_inj' (scanned.symm.trans split) rfl
    refine ⟨Whole.nesting_le again, fun entry member => ?_⟩
    obtain ⟨name, isCalled, found⟩ := List.mem_filterMap.mp member
    obtain ⟨_, _, _, expanded⟩ := Whole.expands again isCalled
    obtain ⟨same, foundAgain, shallow, -⟩ := AliasTable.source_expand_iff.mp expanded
    cases found.symm.trans foundAgain
    exact shallow
  · rintro ⟨fits, shallow⟩
    refine yields_of_derivation [] scanned stops (Whole.of_called derived fits ?_)
    intro name isCalled
    obtain ⟨_, _, _, expanded⟩ := Whole.expands derived isCalled
    obtain ⟨entry, found, fitsFirst, -⟩ := AliasTable.source_expand_iff.mp expanded
    exact AliasTable.source_expand_eq found
      (shallow entry (List.mem_filterMap.mpr ⟨name, isCalled, found⟩)) fitsFirst

theorem parseWith_of_wider (nesting : limits.maxNesting ≤ others.maxNesting)
    (depth : limits.maxAliasDepth ≤ others.maxAliasDepth)
    (parsed : (Selector.parseWith (.ok table) limits text).1 = .ok selector) :
    (Selector.parseWith (.ok table) others text).1 = .ok selector := by
  have fits := (parseWith_eq_ok_iff_fits parsed).mp parsed
  exact (parseWith_eq_ok_iff_fits parsed).mpr ⟨Nat.le_trans fits.1 nesting,
    fun entry member => Nat.le_trans (fits.2 entry member) depth⟩

/-- All limits under which a text is parsed give it the same meaning. -/
theorem parseWith_answers_eq
    (parsed : (Selector.parseWith (.ok table) limits text).1 = .ok selector)
    (parsedOther : (Selector.parseWith (.ok table) others text).1 = .ok other) :
    selector = other := by
  have wide := @parseWith_of_wider table limits (limits.join others) text selector
    (Nat.le_max_left _ _) (Nat.le_max_left _ _) parsed
  have wideOther := @parseWith_of_wider table others (limits.join others) text other
    (Nat.le_max_right _ _) (Nat.le_max_right _ _) parsedOther
  exact Except.ok.inj (wide.symm.trans wideOther)

/-- Within tighter limits the same comes out, unless parsing refuses. -/
theorem parseWith_curbed {strict loose : CompileLimits}
    (nesting : strict.maxNesting ≤ loose.maxNesting)
    (depth : strict.maxAliasDepth ≤ loose.maxAliasDepth) :
    (Selector.parseWith (.ok table) strict text).1 =
        (Selector.parseWith (.ok table) loose text).1 ∨
      ∃ failure, strict.Refuses failure ∧
        (Selector.parseWith (.ok table) strict text).1 = .error failure := by
  have wider := @parseWith_of_wider table strict loose text
  have outcomes := Parser.readAll_tracks nesting (.inl (.inl rfl)) (Token.scan text)
    (table.source_tracks strict depth _) ⟨(), []⟩ ⟨(), []⟩
  simp only [Selector.parseWith, Selector.read, EStateM.run] at wider ⊢
  generalize Parser.readAll (table.source strict.maxAliasDepth) strict.maxNesting
    (Token.scan text) ⟨(), []⟩ = first at outcomes wider
  generalize Parser.readAll (table.source loose.maxAliasDepth) loose.maxNesting
    (Token.scan text) ⟨(), []⟩ = second at outcomes wider
  cases outcomes with
  | refused refused => exact .inr ⟨_, refused, rfl⟩
  | failed own => exact .inl rfl
  | read agrees => exact .inl (wider nesting depth rfl).symm

/-- Other limits do not change what a parsed text stands for.  They may refuse it, and do
so exactly if its arguments nest too deep or an alias written in it is too deep; so no
looser limits refuse it. -/
theorem parseWith_others {aliases : Except ParseError AliasTable}
    (parsed : (Selector.parseWith aliases limits text).1 = .ok selector)
    (others : CompileLimits) :
    ((Selector.parseWith aliases others text).1 = .ok selector ∨
      (Selector.parseWith aliases others text).1 =
        .error (.nestingTooDeep others.maxNesting) ∨
      ∃ chain, (Selector.parseWith aliases others text).1 =
        .error (.aliasCycle chain)) ∧
    ((Selector.parseWith aliases others text).1 = .ok selector ↔
      Token.nesting (Token.scan text) ≤ others.maxNesting ∧
        ∀ table, aliases = .ok table → ∀ entry ∈ table.written (Token.scan text),
          entry.depth ≤ others.maxAliasDepth) ∧
    (limits.maxNesting ≤ others.maxNesting →
      limits.maxAliasDepth ≤ others.maxAliasDepth →
      (Selector.parseWith aliases others text).1 = .ok selector) := by
  cases aliases with
  | error failure => cases parsed
  | ok table =>
      simp only [Except.ok.injEq, forall_eq']
      refine ⟨?_, parseWith_eq_ok_iff_fits parsed, fun nesting depth =>
        parseWith_of_wider nesting depth parsed⟩
      have wide := @parseWith_of_wider table limits (limits.join others) text selector
        (Nat.le_max_left _ _) (Nat.le_max_left _ _) parsed
      rcases @parseWith_curbed table text others (limits.join others)
        (Nat.le_max_right _ _) (Nat.le_max_right _ _) with
        same | ⟨failure, rfl | ⟨chain, rfl⟩, failed⟩
      · exact .inl (same.trans wide)
      · exact .inr (.inl failed)
      · exact .inr (.inr ⟨chain, failed⟩)

/-- What `:quiet` is defined as, `:not(i)`. -/
def quiet : Selector :=
  [⟨[.functional .not [⟨[.type "i"], [], none⟩]], [], none⟩]

/-- What `:silent` is defined as, `b:quiet`. -/
def silent : Selector :=
  [⟨[.type "b", .functional .is quiet], [], none⟩]

def silentEntry : AliasEntry :=
  ⟨"silent", "b:quiet", silent, 2, some "quiet"⟩

/-- Two aliases, the second of which uses the first. -/
def quietTable : AliasTable :=
  ⟨[⟨"quiet", ":not(i)", quiet, 1, none⟩, silentEntry]⟩

/-- The argument in the definition of `:quiet` does not count, but `:silent` is as deep as
two aliases. -/
theorem parseWith_others_silent :
    (Selector.parseWith (.ok quietTable) {} ":is(:silent)").1 =
        .ok [⟨[.functional .is [⟨[.functional .is silent], [], none⟩]], [], none⟩] ∧
      (Selector.parseWith (.ok quietTable) ⟨1, 2⟩ ":is(:silent)").1 =
        .ok [⟨[.functional .is [⟨[.functional .is silent], [], none⟩]], [], none⟩] ∧
      (Selector.parseWith (.ok quietTable) ⟨1, 1⟩ ":is(:silent)").1 =
        .error (.aliasCycle ["silent", "quiet"]) := by
  have parsed : (Selector.parseWith (.ok quietTable) {} ":is(:silent)").1 =
      .ok [⟨[.functional .is [⟨[.functional .is silent], [], none⟩]], [], none⟩] := by
    decide +kernel
  have nesting : Token.nesting (Token.scan ":is(:silent)") = 1 := by
    decide +kernel
  have written : quietTable.written (Token.scan ":is(:silent)") = [silentEntry] := by
    decide +kernel
  refine ⟨parsed, (parseWith_others parsed ⟨1, 2⟩).2.1.mpr ⟨?_, ?_⟩, by decide +kernel⟩
  · exact Nat.le_of_eq nesting
  · rintro table ⟨⟩ entry member
    rw [written, List.mem_singleton] at member
    rw [member]
    exact Nat.le_refl 2

end Selector

end TreeSelectors
