import Mathlib.Data.List.Chain
import Mathlib.Data.List.Infix
import Mathlib.Data.List.Perm.Subperm
import Mathlib.Order.Bounds.Basic
import TreeSelectors.Proofs.Alias.Order

/-!
# Chains of references

One alias refers to another one if its text calls it.  In a finished table every entry is
one deeper than the deepest entry that it refers to, and names such an entry as the next
one.  So no reference leads back, the depth of an entry is the length of the longest chain
of references that starts with it, and following the next entries gives such a chain.
-/

namespace TreeSelectors

open Grammar Reading

namespace AliasTable

/-- The text of the first name calls the second one, which has a text, too. -/
def References (expansions : String → Option String) (name other : String) : Prop :=
  ∃ expansion, expansions name = some expansion ∧
    other ∈ Token.called (Token.scan expansion) ∧ (expansions other).isSome

/-- A chain of references that starts with a name. -/
structure Path (expansions : String → Option String) (name : String)
    (path : List String) : Prop where
  head : path.head? = some name
  linked : path.IsChain (References expansions)

section

variable {expansions : String → Option String} {name other : String}
  {path : List String}

theorem Path.single (expansions : String → Option String) (name : String) :
    Path expansions name [name] :=
  ⟨rfl, .singleton name⟩

theorem Path.cons (references : References expansions name other)
    (rest : Path expansions other path) : Path expansions name (name :: path) where
  head := rfl
  linked := by
    refine rest.linked.cons fun next isHead => ?_
    obtain rfl := Option.some.inj (rest.head.symm.trans isHead)
    exact references

/-- A chain is a name alone, or goes on behind it. -/
theorem Path.cases (isPath : Path expansions name path) :
    path = [name] ∨ ∃ other rest, path = name :: rest ∧
      References expansions name other ∧ Path expansions other rest := by
  obtain ⟨head, linked⟩ := isPath
  cases path with
  | nil => cases head
  | cons first rest =>
      obtain rfl := Option.some.inj head
      cases rest with
      | nil => exact .inl rfl
      | cons other rest =>
          obtain ⟨references, linked⟩ := List.isChain_cons_cons.mp linked
          exact .inr ⟨other, other :: rest, rfl, references, rfl, linked⟩

end

end AliasTable

/-! ## What reading a text with some aliases keeps -/

/-- The aliases that are called by a list of names; no other name is known. -/
def AliasSource.among {σ : Type} (aliases : AliasSource σ) (names : List String) :
    AliasSource σ where
  expand name := if name ∈ names then aliases.expand name else return none
  isAlias := aliases.isAlias

/-- What looking up the names that a text calls keeps, reading the text keeps. -/
theorem yields_read_keeps {σ : Type} {aliases : AliasSource σ} {holds : σ → Prop}
    {maxNesting : Nat} {text : String} {remarks : List Remark} {known later : σ}
    {selector : Selector}
    (kept : ∀ name ∈ Token.called (Token.scan text), ∀ known selector later,
      holds known → (aliases.expand name).run known = .ok (some selector, later) →
      holds later)
    (read : Yields (Selector.read aliases maxNesting text) remarks known selector later)
    (start : holds known) : holds later := by
  obtain ⟨segment, stop, scanned, stops, derived⟩ := Selector.exists_derivation read
  have sameCalled := (Whole.end_eq derived stops).2
  -- The same is read if only the called names can be looked up.
  have derivedAmong : Whole (aliases.among (Token.called (Token.scan text))) maxNesting
      known segment selector later :=
    Whole.of_called derived (Whole.nesting_le derived)
      fun name member => if_pos (by rwa [scanned, sameCalled])
  have readAmong := Selector.yields_of_derivation [] scanned stops derivedAmong
  have follows : Follows (aliases.among (Token.called (Token.scan text))) aliases
      (fun _ => True) fun known state => known = state ∧ holds state := by
    intro name before selector after expanded _
    simp only [AliasSource.among] at expanded
    split at expanded
    · rename_i member
      refine ⟨trivial, ?_⟩
      rintro _ ⟨rfl, holdsBefore⟩
      exact ⟨after, ⟨rfl, kept name member _ _ _ holdsBefore expanded⟩, expanded⟩
    · cases expanded
  obtain ⟨-, leads⟩ :=
    yields_read_carried follows (Nat.le_refl _) [] readAmong trivial
  obtain ⟨_, ⟨rfl, holdsLater⟩, -⟩ := leads known ⟨rfl, start⟩
  exact holdsLater

namespace AliasTable

/-! ## One step in a finished table -/

section

variable {expansions : String → Option String} {table : AliasTable}
  {entry : AliasEntry} {survey : Build.Survey} {name : String}

/-- Every name that the text of an entry calls has an entry that was surveyed. -/
theorem Exact.exists_entry (exact : table.Exact expansions entry survey)
    (member : name ∈ Token.called (Token.scan entry.expansion)) :
    ∃ inner, table.find? name = some inner ∧ inner.depth ≤ survey.depth := by
  have matched : Matched table.surveying (table.source survey.depth)
      (fun known => known.depth ≤ survey.depth) () := by
    intro reference known selector later expanded final
    obtain ⟨inner, found, rfl, rfl⟩ := surveying_expand_iff.mp expanded
    obtain ⟨less, inside⟩ := known.le_depth_note inner known.table
    exact ⟨Nat.le_trans less final, source_expand_iff.mpr
      ⟨inner, found, Nat.le_trans inside final, rfl⟩⟩
  obtain ⟨-, read⟩ := yields_read_transfer matched (Nat.le_refl _) [] exact.surveyed
    (Nat.le_refl survey.depth)
  obtain ⟨segment, stop, scanned, stops, derived⟩ := Selector.exists_derivation read
  rw [scanned, (Whole.end_eq derived stops).2] at member
  obtain ⟨_, _, _, expanded⟩ := Whole.expands derived member
  obtain ⟨inner, found, fits, -⟩ := source_expand_iff.mp expanded
  exact ⟨inner, found, fits⟩

/-- What a survey has found deepest, if anything, is one of some names. -/
def FoundAmong (table : AliasTable) (names : List String) (survey : Build.Survey) : Prop :=
  survey.depth = 0 ∧ survey.via = none ∨
    ∃ other ∈ names, ∃ inner, table.find? other = some inner ∧
      survey.via = some other ∧ survey.depth = inner.depth

/-- The deepest reference of a survey is one of the names that the text calls. -/
theorem Exact.foundAmong (exact : table.Exact expansions entry survey) :
    table.FoundAmong (Token.called (Token.scan entry.expansion)) survey := by
  have start : table.FoundAmong (Token.called (Token.scan entry.expansion))
      ⟨table, 0, none⟩ :=
    .inl ⟨rfl, rfl⟩
  refine yields_read_keeps ?_ exact.surveyed start
  intro reference member known selector later before expanded
  obtain ⟨inner, found, -, rfl⟩ := surveying_expand_iff.mp expanded
  unfold Build.Survey.note
  split
  · exact .inr ⟨reference, member, inner, found, congrArg some (find?_name found), rfl⟩
  · exact before

variable (finished : table.Finished expansions) (found : table.find? name = some entry)

include finished found

private theorem Finished.depth_pos : 0 < entry.depth := by
  obtain ⟨survey, exact⟩ := finished.exact_of_find? found
  rw [exact.depth]
  exact Nat.succ_pos _

theorem Finished.defined : expansions name = some entry.expansion := by
  obtain ⟨survey, exact⟩ := finished.exact_of_find? found
  rw [← find?_name found, exact.defined]

/-- References lead to entries that are less deep. -/
theorem Finished.exists_inner {other : String} (references : References expansions name other) :
    ∃ inner, table.find? other = some inner ∧ inner.depth < entry.depth := by
  obtain ⟨survey, exact⟩ := finished.exact_of_find? found
  obtain ⟨expansion, defined, member, -⟩ := references
  obtain rfl := Option.some.inj ((finished.defined found).symm.trans defined)
  obtain ⟨inner, isInner, fits⟩ := exact.exists_entry member
  refine ⟨inner, isInner, ?_⟩
  rw [exact.depth]
  exact Nat.lt_succ_of_le fits

/-- An entry names no next one if it is not deeper than one alias; otherwise it refers to
the next one, which is less deep by one. -/
theorem Finished.via_cases :
    entry.via = none ∧ entry.depth = 1 ∨
      ∃ other inner, entry.via = some other ∧ References expansions name other ∧
        table.find? other = some inner ∧ entry.depth = inner.depth + 1 := by
  obtain ⟨survey, exact⟩ := finished.exact_of_find? found
  rw [exact.via, exact.depth]
  rcases exact.foundAmong with ⟨depth, via⟩ | ⟨other, member, inner, isInner, via, depth⟩
  · exact .inl ⟨via, by rw [depth]⟩
  · refine .inr ⟨other, inner, via, ⟨entry.expansion, finished.defined found, member, ?_⟩,
      isInner, by rw [depth]⟩
    rw [finished.defined isInner]
    rfl

/-! ## Chains in a finished table -/

private theorem Finished.exists_inner_of_transGen {other : String}
    (leads : Relation.TransGen (References expansions) name other) :
    ∃ inner, table.find? other = some inner ∧ inner.depth < entry.depth := by
  induction leads with
  | single references => exact finished.exists_inner found references
  | tail _ references induction =>
      obtain ⟨between, isBetween, lower⟩ := induction
      obtain ⟨inner, isInner, lowest⟩ := finished.exists_inner isBetween references
      exact ⟨inner, isInner, Nat.lt_trans lowest lower⟩

/-- No chain of references is longer than its first entry is deep. -/
theorem Finished.path_length_le {path : List String} (isPath : Path expansions name path) :
    path.length ≤ entry.depth := by
  induction path generalizing name entry with
  | nil => exact Nat.zero_le _
  | cons first rest induction =>
      rcases isPath.cases with single | ⟨other, rest, split, references, isRest⟩
      · rw [single]
        exact finished.depth_pos found
      · obtain ⟨rfl, rfl⟩ := List.cons_eq_cons.mp split
        obtain ⟨inner, isInner, lower⟩ := finished.exists_inner found references
        exact Nat.lt_of_le_of_lt (induction isInner isRest) lower

/-- The next entries make up a chain of references that is as long as the first entry is
deep. -/
theorem Finished.path_chainFrom {limit : Nat} (fits : entry.depth ≤ limit + 1) :
    Path expansions name (table.chainFrom name limit) ∧
      (table.chainFrom name limit).length = entry.depth := by
  induction limit generalizing name entry with
  | zero =>
      have positive := finished.depth_pos found
      exact ⟨.single expansions name, Nat.le_antisymm positive fits⟩
  | succ limit induction =>
      rw [chainFrom, found, Option.bind_some]
      rcases finished.via_cases found with
        ⟨via, depth⟩ | ⟨other, inner, via, references, isInner, depth⟩
      · rw [via, depth]
        exact ⟨.single expansions name, rfl⟩
      · rw [via, depth]
        rw [depth] at fits
        obtain ⟨isPath, length⟩ := induction isInner (Nat.le_of_succ_le_succ fits)
        exact ⟨.cons references isPath, congrArg Nat.succ length⟩

end

section

variable {expansions : String → Option String} {table : AliasTable} {name : String}
  (finished : table.Finished expansions)

include finished

/-- Nothing refers to itself, directly or through other aliases. -/
theorem Finished.acyclic : ¬ Relation.TransGen (References expansions) name name := by
  intro leads
  obtain ⟨other, ⟨expansion, defined, -⟩, -⟩ := Relation.TransGen.head'_iff.mp leads
  obtain ⟨entry, found⟩ := finished.finds defined
  obtain ⟨inner, isInner, lower⟩ := finished.exists_inner_of_transGen found leads
  obtain rfl := Option.some.inj (isInner.symm.trans found)
  exact Nat.lt_irrefl _ lower

/-- So no name stands twice in a chain of references. -/
theorem Finished.path_nodup {path : List String} (isPath : Path expansions name path) :
    path.Nodup := by
  have leads : path.IsChain (Relation.TransGen (References expansions)) :=
    isPath.linked.imp fun _ _ => .single
  refine leads.pairwise.imp fun leads => ?_
  rintro rfl
  exact finished.acyclic leads

private theorem Finished.find?_of_path {path : List String} {entry : AliasEntry}
    (found : table.find? name = some entry) (isPath : Path expansions name path) :
    ∀ other ∈ path, ∃ inner, table.find? other = some inner := by
  induction path generalizing name entry with
  | nil => simp
  | cons first rest induction =>
      rcases isPath.cases with single | ⟨next, rest, split, references, isRest⟩
      · rw [single]
        simpa using ⟨entry, found⟩
      · obtain ⟨rfl, rfl⟩ := List.cons_eq_cons.mp split
        obtain ⟨inner, isInner, -⟩ := finished.exists_inner found references
        exact List.forall_mem_cons.mpr ⟨⟨entry, found⟩, induction isInner isRest⟩

/-- A chain of references has at most as many names as the table has entries. -/
theorem Finished.path_length_le_entries {path : List String} {entry : AliasEntry}
    (found : table.find? name = some entry) (isPath : Path expansions name path) :
    path.length ≤ table.entries.length := by
  have among : path ⊆ table.entries.map AliasEntry.name := by
    intro other member
    obtain ⟨inner, isInner⟩ := finished.find?_of_path found isPath other member
    exact List.mem_map.mpr ⟨inner, List.mem_of_find?_eq_some isInner, find?_name isInner⟩
  have length := (List.subperm_of_subset (finished.path_nodup isPath) among).length_le
  rwa [List.length_map] at length

/-- The chain of a name is as long as its entry is deep. -/
theorem Finished.path_chain {entry : AliasEntry} (found : table.find? name = some entry) :
    Path expansions name (table.chain name) ∧
      (table.chain name).length = entry.depth := by
  obtain ⟨isPath, length⟩ := finished.path_chainFrom found (Nat.le_succ entry.depth)
  have fits := finished.path_length_le_entries found isPath
  rw [length] at fits
  exact finished.path_chainFrom found (Nat.le_succ_of_le fits)

end

/-! ## Depths of a finished table -/

/-- An entry is expanded if it is no deeper than the limit, and otherwise its chain is
reported. -/
theorem source_expand_of_find? {table : AliasTable} {name : String} {entry : AliasEntry}
    (found : table.find? name = some entry) (limit : Nat) :
    ((table.source limit).expand name).run () =
      if entry.depth ≤ limit then .ok (some entry.selector, ())
      else .error (.aliasCycle (table.chain name)) := by
  simp only [source, found]
  by_cases fits : entry.depth ≤ limit
  · rw [if_neg (Nat.not_lt.mpr fits), if_pos fits]
    rfl
  · rw [if_pos (Nat.not_le.mp fits), if_neg fits]
    rfl

/-- If a table is built, then no alias refers to itself, not even through others.  Each
defined name has an entry, whose depth is the number of names on the longest chain of
references from there, which is one for a text without references.  The chain of the name
is such a chain, and it is reported exactly if it is longer than a limit. -/
theorem build_depths {definitions : List (String × String)} {table : AliasTable}
    (built : AliasTable.build definitions = .ok table) :
    (∀ name, ¬ Relation.TransGen (References (Build.expansion? definitions)) name name) ∧
      ∀ name expansion, Build.expansion? definitions name = some expansion →
        ∃ entry, table.find? name = some entry ∧
          IsGreatest {length | ∃ path, Path (Build.expansion? definitions) name path ∧
            path.length = length} entry.depth ∧
          ((∀ other, ¬ References (Build.expansion? definitions) name other) →
            entry.depth = 1) ∧
          Path (Build.expansion? definitions) name (table.chain name) ∧
          (table.chain name).length = entry.depth ∧
          ∀ limit, ((table.source limit).expand name).run () =
            if entry.depth ≤ limit then .ok (some entry.selector, ())
            else .error (.aliasCycle (table.chain name)) := by
  have finished := finished_of_build built
  refine ⟨fun name => finished.acyclic, fun name expansion defined => ?_⟩
  obtain ⟨entry, found⟩ := finished.finds defined
  obtain ⟨isPath, length⟩ := finished.path_chain found
  refine ⟨entry, found, ⟨⟨_, isPath, length⟩, ?_⟩, fun alone => ?_, isPath, length,
    source_expand_of_find? found⟩
  · rintro _ ⟨path, isPath, rfl⟩
    exact finished.path_length_le found isPath
  · rcases finished.via_cases found with ⟨-, depth⟩ | ⟨other, -, -, references, -⟩
    · exact depth
    · exact absurd references (alone other)

/-- Four aliases; two chains of references lead from the first one to the last one. -/
def nestedDefinitions : List (String × String) :=
  [("top", ":left:right"), ("right", ":left, b"), ("left", ":bottom"), ("bottom", "i")]

/-- The references of `:top` were read from left to right. -/
def nestedTable : AliasTable :=
  let bottom : Selector := [⟨[.type "i"], [], none⟩]
  let left : Selector := [⟨[.functional .is bottom], [], none⟩]
  let right : Selector := [⟨[.functional .is left], [], none⟩, ⟨[.type "b"], [], none⟩]
  let top : Selector := [⟨[.functional .is left, .functional .is right], [], none⟩]
  ⟨[⟨"bottom", "i", bottom, 1, none⟩, ⟨"left", ":bottom", left, 2, some "bottom"⟩,
    ⟨"right", ":left, b", right, 3, some "left"⟩,
    ⟨"top", ":left:right", top, 4, some "right"⟩]⟩

/-- The longer chain decides, although the shorter one was found first. -/
theorem build_depths_nested :
    build nestedDefinitions = .ok nestedTable ∧
      Build.expansion? nestedDefinitions "top" = some ":left:right" ∧
      IsGreatest {length | ∃ path,
        Path (Build.expansion? nestedDefinitions) "top" path ∧ path.length = length} 4 ∧
      nestedTable.chain "top" = ["top", "right", "left", "bottom"] ∧
      ((nestedTable.source 3).expand "top").run () =
        .error (.aliasCycle ["top", "right", "left", "bottom"]) := by
  have built : build nestedDefinitions = .ok nestedTable := by decide +kernel
  have defined : Build.expansion? nestedDefinitions "top" = some ":left:right" := by
    decide
  have chain : nestedTable.chain "top" = ["top", "right", "left", "bottom"] := by
    decide
  obtain ⟨entry, found, greatest, -, -, -, answers⟩ :=
    (build_depths built).2 "top" _ defined
  cases found
  refine ⟨built, defined, greatest, chain, ?_⟩
  rw [← chain]
  exact answers 3

end AliasTable

end TreeSelectors
