import TreeSelectors.Alias.Table
import TreeSelectors.Proofs.Answer
import TreeSelectors.Proofs.Selector.Soundness

/-!
# Tables of sound aliases

An entry of a table is either found or read, with the aliases of the table that
grows meanwhile.  So all aliases of a table stand for well-formed selectors.
-/

namespace TreeSelectors

open Grammar Reading

namespace AliasTable

/-- Every alias of the table stands for a sound selector. -/
def Sound (table : AliasTable) : Prop :=
  ∀ entry ∈ table.entries, Grammar.Sound false entry.selector

private theorem Sound.of_find? {table : AliasTable} {name : String} {entry : AliasEntry}
    (sound : table.Sound) (found : table.find? name = some entry) :
    Grammar.Sound false entry.selector :=
  sound entry (List.mem_of_find?_eq_some found)

namespace Build

variable {definitions : List (String × String)} {levels : Nat}
  {stack : List String} {name : String} {table result : AliasTable}
  {found : AliasEntry}

/-- The aliases while the last definition of a stack is read. -/
def references (definitions : List (String × String)) (levels : Nat)
    (stack : List String) : AliasSource Survey where
  expand reference survey :=
    if (expansion? definitions reference).isNone then
      .ok (none, survey)
    else
      match entry definitions levels stack reference survey.table with
      | .error failure => .error failure
      | .ok (entry, table) => .ok (some entry.selector, survey.note entry table)
  isAlias reference := (expansion? definitions reference).isSome

/-- An alias that a reference is expanded to has an entry, and leaves the table that
looking up the entry leaves. -/
theorem references_expand {reference : String} {survey later : Survey}
    {selector : Selector}
    (expanded : ((references definitions levels stack).expand reference).run survey =
      .ok (some selector, later)) :
    ∃ entered, entry definitions levels stack reference survey.table =
        .ok (entered, later.table) ∧ selector = entered.selector := by
  simp only [references, StateT.run] at expanded
  split at expanded
  · cases expanded
  · split at expanded
    · cases expanded
    · rename_i entered after built
      cases expanded
      refine ⟨entered, ?_, rfl⟩
      rw [built]
      unfold Survey.note
      split
      · rfl
      · rfl

/-- The definition of a name that has no entry yet is read; references in it may go
`levels` deeper. -/
structure Reads (definitions : List (String × String)) (levels : Nat)
    (stack : List String) (name : String) (table : AliasTable) (found : AliasEntry)
    (survey : Survey) : Prop where
  unknown : table.find? name = none
  fresh : name ∉ stack
  defined : expansion? definitions name = some found.expansion
  named : found.name = name
  depth : found.depth = survey.depth + 1
  via : found.via = survey.via
  read : Yields (Selector.read (references definitions levels (stack ++ [name]))
    ({} : CompileLimits).maxNesting found.expansion) [] ⟨table, 0, none⟩ found.selector
    survey

/-- An entry is found in the table, or its definition is read and the entry
added to the table that the references in it have left. -/
theorem entry_cases
    (built : entry definitions levels stack name table = .ok (found, result)) :
    (table.find? name = some found ∧ result = table) ∨
      ∃ fewer survey, levels = fewer + 1 ∧
        Reads definitions fewer stack name table found survey ∧
        result = ⟨survey.table.entries ++ [found]⟩ := by
  unfold entry at built
  split at built
  · rename_i known
    cases built
    exact Or.inl ⟨known, rfl⟩
  · rename_i unknown
    split at built
    · cases built
    · rename_i fresh
      split at built
      · cases built
      · rename_i fewer
        split at built
        · cases built
        · rename_i expansion expanded
          dsimp only at built
          split at built
          · cases built
          · rename_i selector survey remarks read
            cases built
            exact Or.inr ⟨fewer, survey, rfl,
              ⟨unknown, fresh, expanded, rfl, rfl, rfl, remarks, read⟩, rfl⟩

/-- What holds of entries that are found, and of an entry that is read if it holds of
those that are referred to, holds of all entries. -/
theorem entry_induction
    {motive : List String → String → AliasTable → AliasEntry → AliasTable → Prop}
    (known : ∀ stack name table found, table.find? name = some found →
      motive stack name table found table)
    (reads : ∀ levels stack name table found survey,
      (∀ stack name table found result,
        entry definitions levels stack name table = .ok (found, result) →
          motive stack name table found result) →
      Reads definitions levels stack name table found survey →
      motive stack name table found ⟨survey.table.entries ++ [found]⟩)
    (built : entry definitions levels stack name table = .ok (found, result)) :
    motive stack name table found result := by
  induction levels generalizing stack name table found result with
  | zero =>
      obtain ⟨isKnown, rfl⟩ | ⟨_, _, impossible, -⟩ := entry_cases built
      · exact known _ _ _ _ isKnown
      · cases impossible
  | succ levels induction =>
      obtain ⟨isKnown, rfl⟩ | ⟨fewer, survey, same, isRead, rfl⟩ := entry_cases built
      · exact known _ _ _ _ isKnown
      · obtain rfl := Nat.succ.inj same
        exact reads _ _ _ _ _ _ (fun _ _ _ _ _ inner => induction inner) isRead

/-- The entries that are found, and the tables that are left, stay sound. -/
theorem entry_sound (sound : table.Sound)
    (built : entry definitions levels stack name table = .ok (found, result)) :
    result.Sound ∧ Grammar.Sound false found.selector := by
  revert sound
  refine entry_induction (motive := fun _ _ table found result =>
    table.Sound → result.Sound ∧ Grammar.Sound false found.selector) ?_ ?_ built
  · intro stack name table found known sound
    exact ⟨sound, sound.of_find? known⟩
  · intro levels stack name table found survey induction reads sound
    have keeps : KeepsSound (references definitions levels (stack ++ [name]))
        fun survey => survey.table.Sound := by
      intro reference before after selector start expanded
      obtain ⟨entered, built, rfl⟩ := references_expand expanded
      exact induction _ _ _ _ _ built start
    obtain ⟨after, selects⟩ := sound_of_read keeps reads.read sound
    refine ⟨?_, selects⟩
    intro entry member
    rcases List.mem_append.mp member with member | member
    · exact after entry member
    · rw [List.mem_singleton.mp member]
      exact selects

end Build

/-- One definition more is read. -/
def Build.step (all : List (String × String)) (levels : Nat) (table : AliasTable)
    (definition : String × String) : Except ParseError AliasTable := do
  let (_, table) ← Build.entry all levels [] definition.1 table
  return table

theorem Build.step_eq_ok_iff {all : List (String × String)} {levels : Nat}
    {table result : AliasTable} {definition : String × String} :
    Build.step all levels table definition = .ok result ↔
      ∃ found, Build.entry all levels [] definition.1 table = .ok (found, result) := by
  rw [Build.step, bind_eq_ok]
  constructor
  · intro read
    obtain ⟨⟨found, left⟩, built, same⟩ := read
    cases same
    exact ⟨found, built⟩
  · intro read
    obtain ⟨found, built⟩ := read
    exact ⟨(found, result), built, rfl⟩

theorem build_eq_foldlM (definitions : List (String × String)) :
    AliasTable.build definitions =
      definitions.foldlM (Build.step definitions ({} : CompileLimits).maxAliasDepth)
        ⟨[]⟩ :=
  rfl

/-- What every entry that is looked up preserves, holds after all definitions. -/
theorem foldlM_invariant {definitions all : List (String × String)} {levels : Nat}
    {holds : AliasTable → Prop}
    (preserved : ∀ name table found result, holds table →
      Build.entry all levels [] name table = .ok (found, result) → holds result)
    {table result : AliasTable} (start : holds table)
    (built : definitions.foldlM (Build.step all levels) table = .ok result) :
    holds result := by
  induction definitions generalizing table with
  | nil =>
      cases built
      exact start
  | cons definition others induction =>
      rw [List.foldlM_cons, bind_eq_ok] at built
      obtain ⟨between, first, built⟩ := built
      obtain ⟨found, entered⟩ := Build.step_eq_ok_iff.mp first
      exact induction (preserved _ _ _ _ start entered) built

theorem build_sound {definitions : List (String × String)} {table : AliasTable}
    (built : AliasTable.build definitions = .ok table) : table.Sound := by
  rw [build_eq_foldlM] at built
  refine foldlM_invariant ?_ ?_ built
  · exact fun _ _ _ _ sound entered => (Build.entry_sound sound entered).1
  · intro entry member
    cases member

/-- A table expands the names of entries that are no deeper than the limit. -/
theorem source_expand_iff {table : AliasTable} {limit : Nat} {name : String}
    {selector : Selector} :
    ((table.source limit).expand name).run () = .ok (some selector, ()) ↔
      ∃ entry, table.find? name = some entry ∧ entry.depth ≤ limit ∧
        entry.selector = selector := by
  simp only [source]
  cases table.find? name with
  | none =>
      refine iff_of_false ?_ ?_
      · intro expanded
        cases expanded
      · simp
  | some entry =>
      simp only [Option.some.injEq, exists_eq_left']
      by_cases deep : limit < entry.depth
      · rw [if_pos deep]
        refine iff_of_false ?_ fun known => Nat.not_lt.mpr known.1 deep
        intro expanded
        cases expanded
      · rw [if_neg deep]
        constructor
        · intro expanded
          cases expanded
          exact ⟨Nat.not_lt.mp deep, rfl⟩
        · intro known
          obtain ⟨-, rfl⟩ := known
          rfl

/-- The finished table is a source of sound aliases. -/
theorem source_keepsSound {table : AliasTable} (sound : table.Sound)
    (maxDepth : Nat) : KeepsSound (table.source maxDepth) fun _ => True := by
  intro name known later selector _ expanded
  obtain ⟨entry, found, -, rfl⟩ := source_expand_iff.mp expanded
  exact ⟨trivial, sound.of_find? found⟩

end AliasTable

end TreeSelectors
