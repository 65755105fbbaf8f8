import TreeSelectors.Proofs.Alias.Settling
import TreeSelectors.Proofs.Matching.Wrapping
import TreeSelectors.Proofs.Selector.Limits
import TreeSelectors.Proofs.Selector.Printing

/-!
# Calling an alias

A name behind a single colon is looked up among the aliases if it has no meaning of its
own.  What a finished table keeps for the name is what its definition is parsed as with
that table, and calling the name selects what the definition selects.
-/

namespace TreeSelectors

open Grammar Reading

/-- The names that are looked up: those that no pseudo-class or pseudo-element has. -/
structure LookedUp (name : String) : Prop where
  noPlain : PlainClass.ofName? name = none
  noElement : Selector.Parser.isLegacyPseudoElement name = false
  noFunction : SelectorFunction.ofName? name = none
  noCounting : Counting.ofName? name = none

/-- A text that consists of a colon and an identifier, which is looked up under a
name. -/
structure Calls (text name : String) : Prop where
  lookedUp : LookedUp name
  scanned : ∃ colon token stop spelled, Token.scan text = [colon, token, stop] ∧
    colon.kind = .colon ∧ token.kind = .ident spelled ∧ stop.kind = .endOfInput ∧
    Text.foldCase spelled = name

/-- Every name in small letters that is looked up can be called. -/
theorem LookedUp.calls {text name : String} (lookedUp : LookedUp name)
    (folded : Text.foldCase name = name) (named : IsName name)
    (written : text.toList = ':' :: Text.writeName name.toList) : Calls text name where
  lookedUp := lookedUp
  scanned := by
    have colon : Token.Writes [':'] (Text.writeName name.toList) .colon :=
      .punctuation rfl
    have ident : Token.Writes (Text.writeName name.toList) [] (.ident name) := by
      have spelled := @Token.Writes.ident name.toList [] named.toList_ne_nil named.2
        Grammar.endsIdent_nil
      rwa [String.ofList_toList] at spelled
    have scanned := ident.scanFrom_append 1
    rw [List.append_nil, Token.scanFrom_nil] at scanned
    refine ⟨⟨.colon, 0, [':']⟩, ⟨.ident name, 1, Text.writeName name.toList⟩,
      ⟨.endOfInput, 1 + (Text.writeName name.toList).length, []⟩, name, ?_, rfl, rfl,
      rfl, folded⟩
    rw [Token.scan, written, ← List.singleton_append, colon.scanFrom_append 0]
    exact congrArg _ scanned

namespace Calls

variable {σ : Type} {aliases : AliasSource σ} {known later : σ} {maxNesting : Nat}
  {text name : String} {selector : Selector} {remarks : List Remark}

private theorem yields_read (calls : Calls text name)
    (expanded : (aliases.expand name).run known = .ok (some selector, later)) :
    Yields (Selector.read aliases maxNesting text) remarks known
      [⟨[.functional .is selector], [], none⟩] later := by
  obtain ⟨lookedUp, colon, token, stop, spelled, scanned, isColon, isIdent, stops,
    rfl⟩ := calls
  refine Selector.Parser.readAll_yields_iff.mpr
    ⟨[colon, token], [stop], scanned, stops, ?_⟩
  have pseudo : Pseudo (.upTo aliases maxNesting) known [token]
      (.functional .is selector) later :=
    .abbreviation isIdent lookedUp.noPlain lookedUp.noElement lookedUp.noFunction
      lookedUp.noCounting expanded
  have compound : CompoundOf (.upTo aliases maxNesting) known [colon, token]
      [.functional .is selector] later :=
    .conditions (.condition (.pseudo isColon pseudo)) .nil
  have chain : ChainOf (.upTo aliases maxNesting) false known [colon, token]
      ⟨[.functional .is selector], [], none⟩ later :=
    .links .none compound .nil
  exact .single blank_nil chain blank_nil

/-- A name of the table that is called stands for `:is()` over its selector. -/
theorem parseWith_eq (calls : Calls text name) {table : AliasTable} {entry : AliasEntry}
    (found : table.find? name = some entry) {limits : CompileLimits}
    (shallow : entry.depth ≤ limits.maxAliasDepth) :
    (Selector.parseWith (.ok table) limits text).1 =
      .ok [⟨[.functional .is entry.selector], [], none⟩] :=
  Selector.parseWith_eq_ok_iff.mpr (calls.yields_read
    (AliasTable.source_expand_iff.mpr ⟨entry, found, shallow, rfl⟩))

end Calls

/-- What a finished table keeps for a defined name is what the last text that was given
for the name is parsed as with that table, however deep aliases may go.  So whatever
calls the name is `:is()` over that selector, and selects from every view what the text
selects, under all limits under which both give an answer. -/
theorem AliasTable.build_consistent {definitions : List (String × String)}
    {table : AliasTable} (built : AliasTable.build definitions = .ok table)
    {name expansion : String}
    (defined : Build.expansion? definitions name = some expansion) :
    ∃ entry, table.find? name = some entry ∧ entry.expansion = expansion ∧
      (∀ limits : CompileLimits,
        ({} : CompileLimits).maxNesting ≤ limits.maxNesting →
        table.Within limits.maxAliasDepth →
        (Selector.parseWith (.ok table) limits expansion).1 = .ok entry.selector) ∧
      ∀ text, Calls text name →
        (∀ limits : CompileLimits, entry.depth ≤ limits.maxAliasDepth →
          (Selector.parseWith (.ok table) limits text).1 =
            .ok [⟨[.functional .is entry.selector], [], none⟩]) ∧
        ∀ (limits others : CompileLimits) (called plain : Selector),
          (Selector.parseWith (.ok table) limits text).1 = .ok called →
          (Selector.parseWith (.ok table) others expansion).1 = .ok plain →
          ∀ (ν : Type) [DecidableEq ν] (view : TreeView ν) (root : ν)
            (depth other : Nat) (found foundOther : List ν),
            Selector.select view depth called (.ofSelector called) root = .ok found →
            Selector.select view other plain (.ofSelector plain) root = .ok foundOther →
            found = foundOther := by
  obtain ⟨entry, found, text, reads⟩ := build_entry built defined
  have parsed (limits : CompileLimits)
      (nests : ({} : CompileLimits).maxNesting ≤ limits.maxNesting)
      (within : table.Within limits.maxAliasDepth) :
      (Selector.parseWith (.ok table) limits expansion).1 = .ok entry.selector :=
    Selector.parseWith_eq_ok_iff.mpr (yields_read_transfer
      (table.source_matched (Nat.le_refl limits.maxAliasDepth)) nests []
      (reads limits.maxAliasDepth within) trivial).2
  refine ⟨entry, found, text, parsed, fun text calls =>
    ⟨fun limits shallow => calls.parseWith_eq found shallow, ?_⟩⟩
  intro limits others called plain parsedCall parsedText ν _ view root depth other
    nodes nodesOther selected selectedOther
  -- Whatever the limits of the two parses were, both agree with an unlimited one.
  obtain ⟨deep, within⟩ := table.exists_within
  let unlimited : CompileLimits := { maxAliasDepth := deep }
  have same : called = [⟨[.functional .is entry.selector], [], none⟩] :=
    Selector.parseWith_answers_eq parsedCall (calls.parseWith_eq found
      (show entry.depth ≤ unlimited.maxAliasDepth from
        within entry (List.mem_of_find?_eq_some found)))
  have sameText : plain = entry.selector :=
    Selector.parseWith_answers_eq parsedText (parsed unlimited (Nat.le_refl _) within)
  rw [same] at selected
  rw [sameText] at selectedOther
  exact Selector.select_is_eq selected selectedOther

/-- Two aliases, the first of which refers to the second. -/
def AliasTable.strongDefinitions : List (String × String) :=
  [("strong", ":bold, em"), ("bold", "b")]

/-- The table of the two aliases; the one that is referred to is read first. -/
def AliasTable.strongTable : AliasTable :=
  ⟨[⟨"bold", "b", [⟨[.type "b"], [], none⟩], 1, none⟩,
    ⟨"strong", ":bold, em",
      [⟨[.functional .is [⟨[.type "b"], [], none⟩]], [], none⟩,
        ⟨[.type "em"], [], none⟩], 2, some "bold"⟩]⟩

theorem AliasTable.build_consistent_strong :
    build strongDefinitions = .ok strongTable ∧
      Build.expansion? strongDefinitions "strong" = some ":bold, em" ∧
      Calls ":Strong" "strong" ∧
      (Selector.parseWith (.ok strongTable) {} ":bold, em").1 =
        .ok [⟨[.functional .is [⟨[.type "b"], [], none⟩]], [], none⟩,
          ⟨[.type "em"], [], none⟩] ∧
      (Selector.parseWith (.ok strongTable) {} ":Strong").1 =
        .ok [⟨[.functional .is [⟨[.functional .is [⟨[.type "b"], [], none⟩]], [], none⟩,
          ⟨[.type "em"], [], none⟩]], [], none⟩] := by
  have built : build strongDefinitions = .ok strongTable := by decide +kernel
  have defined : Build.expansion? strongDefinitions "strong" = some ":bold, em" := by
    decide
  have calls : Calls ":Strong" "strong" :=
    { lookedUp := ⟨by decide, by decide, by decide, by decide⟩
      scanned := ⟨⟨.colon, 0, [':']⟩, ⟨.ident "Strong", 1, "Strong".toList⟩,
        ⟨.endOfInput, 7, []⟩, "Strong", by decide +kernel⟩ }
  obtain ⟨entry, found, -, parsed, called⟩ := build_consistent built defined
  cases found
  have within : strongTable.Within ({} : CompileLimits).maxAliasDepth := by
    unfold Within
    decide
  exact ⟨built, defined, calls, parsed {} (Nat.le_refl _) within,
    (called _ calls).1 {} (by decide)⟩

end TreeSelectors
