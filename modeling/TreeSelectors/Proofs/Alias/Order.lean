import TreeSelectors.Proofs.Alias.Calls
import TreeSelectors.Proofs.Bindings

/-!
# The order of definitions

Each entry of a finished table is determined by the text of its name and by the entries
that the text refers to, which are less deep.  So two tables of the same definitions
have the same entries, whichever definition was read first.  Whether there is a table
does depend on the order: an alias that was read before is found at any depth.  Where
no alias is deeper than the limit, this makes no difference.
-/

namespace TreeSelectors

open Grammar Reading

namespace AliasTable

/-! ## Surveys with a finished table -/

/-- The aliases of a finished table, with a survey of those that are referred to. -/
def surveying (table : AliasTable) : AliasSource Build.Survey where
  expand name survey :=
    match table.find? name with
    | none => .ok (none, survey)
    | some entry => .ok (some entry.selector, survey.note entry survey.table)
  isAlias name := (table.find? name).isSome

namespace Build

/-- The same deepest reference, whatever the tables are. -/
structure Survey.Alike (survey other : Survey) : Prop where
  depth : survey.depth = other.depth
  via : survey.via = other.via

theorem Survey.Alike.note {survey other : Survey} (alike : survey.Alike other)
    (entry : AliasEntry) (table later : AliasTable) :
    (survey.note entry table).Alike (other.note entry later) := by
  unfold Survey.note
  rw [alike.depth]
  split
  · exact ⟨rfl, rfl⟩
  · exact ⟨rfl, alike.via⟩

/-- Neither what was noted before nor what is noted now is deeper than the survey. -/
theorem Survey.le_depth_note (survey : Survey) (entry : AliasEntry)
    (table : AliasTable) :
    survey.depth ≤ (survey.note entry table).depth ∧
      entry.depth ≤ (survey.note entry table).depth := by
  unfold Survey.note
  split
  · rename_i deeper
    exact ⟨Nat.le_of_lt deeper, Nat.le_refl _⟩
  · rename_i notDeeper
    exact ⟨Nat.le_refl _, Nat.not_lt.mp notDeeper⟩

@[simp] theorem Survey.note_table (survey : Survey) (entry : AliasEntry)
    (table : AliasTable) :
    (survey.note entry table).table = table := by
  unfold Survey.note
  split
  · rfl
  · rfl

end Build

theorem surveying_expand_iff {table : AliasTable} {name : String}
    {survey later : Build.Survey} {selector : Selector} :
    (table.surveying.expand name).run survey = .ok (some selector, later) ↔
      ∃ entry, table.find? name = some entry ∧ selector = entry.selector ∧
        later = survey.note entry survey.table := by
  simp only [surveying, StateT.run]
  cases table.find? name with
  | none => simp
  | some entry => simp [eq_comm]

/-- The entry has the text of its name.  With the aliases of the table, the text
has the selector of the entry, and its deepest reference is the one of the entry. -/
structure Exact (expansions : String → Option String) (table : AliasTable)
    (entry : AliasEntry) (survey : Build.Survey) : Prop where
  defined : expansions entry.name = some entry.expansion
  surveyed : Yields (Selector.read table.surveying ({} : CompileLimits).maxNesting
    entry.expansion) [] ⟨table, 0, none⟩ entry.selector survey
  depth : entry.depth = survey.depth + 1
  via : entry.via = survey.via

/-- A table has at most one entry of a name that is right. -/
theorem Exact.unique {expansions : String → Option String} {table : AliasTable}
    {entry other : AliasEntry} {survey later : Build.Survey}
    (exact : table.Exact expansions entry survey)
    (exactOther : table.Exact expansions other later) (named : entry.name = other.name) :
    entry = other := by
  have text : entry.expansion = other.expansion :=
    Option.some.inj (exact.defined.symm.trans (named ▸ exactOther.defined))
  have surveyed := exact.surveyed
  rw [text] at surveyed
  obtain ⟨selector, rfl⟩ := surveyed.unique exactOther.surveyed
  have depth := exact.depth.trans exactOther.depth.symm
  have via := exact.via.trans exactOther.via.symm
  cases entry
  cases other
  simp_all

namespace Build

variable {definitions others : List (String × String)} {levels : Nat}
  {stack : List String} {name : String} {table result later : AliasTable}
  {found : AliasEntry}

private theorem references_expand_iff {reference : String} {survey after : Survey}
    {selector : Selector} :
    ((references definitions levels stack).expand reference).run survey =
        .ok (some selector, after) ↔
      (expansion? definitions reference).isSome ∧ ∃ entered table,
        entry definitions levels stack reference survey.table = .ok (entered, table) ∧
          selector = entered.selector ∧ after = survey.note entered table := by
  simp only [references, StateT.run]
  cases expansion? definitions reference with
  | none => simp
  | some expansion =>
      cases entry definitions levels stack reference survey.table with
      | error failure => simp
      | ok answer => simp [eq_comm, Prod.ext_iff]

/-- A definition that can be read is read. -/
theorem entry_of_reads {survey : Survey}
    (reads : Reads definitions levels stack name table found survey) :
    entry definitions (levels + 1) stack name table =
      .ok (found, ⟨survey.table.entries ++ [found]⟩) := by
  obtain ⟨foundName, expansion, selector, depth, via⟩ := found
  obtain ⟨unknown, fresh, defined, rfl, rfl, rfl, remarks, read⟩ := reads
  unfold entry
  rw [unknown]
  dsimp only
  rw [if_neg fresh, defined]
  dsimp only
  split
  · rename_i failed
    cases failed.symm.trans read
  · rename_i succeeded
    cases succeeded.symm.trans read
    rfl

/-- What was read while the table grew is exact with every table that has grown out of
it. -/
theorem Reads.exact {survey : Survey}
    (reads : Reads definitions levels stack name table found survey)
    (extended : survey.table.ExtendedBy later) :
    ∃ final, later.Exact (expansion? definitions) found final := by
  have follows : Follows (references definitions levels (stack ++ [name]))
      later.surveying (fun survey => survey.table.ExtendedBy later) Survey.Alike := by
    intro reference known selector after expanded final
    obtain ⟨-, entered, left, built, rfl, rfl⟩ := references_expand_iff.mp expanded
    rw [Survey.note_table] at final
    have enters := entry_enters built
    refine ⟨enters.extended.trans final, fun state alike => ?_⟩
    exact ⟨_, alike.note entered left state.table, surveying_expand_iff.mpr
      ⟨entered, final _ _ enters.isFound, rfl, rfl⟩⟩
  obtain ⟨-, leads⟩ :=
    yields_read_carried follows (Nat.le_refl _) [] reads.read extended
  obtain ⟨final, alike, surveyed⟩ := leads ⟨later, 0, none⟩ ⟨rfl, rfl⟩
  refine ⟨final, ?_, surveyed, ?_, ?_⟩
  · rw [reads.named, reads.defined]
  · rw [reads.depth, alike.depth]
  · rw [reads.via, alike.via]

end Build

/-! ## Finished tables -/

/-- Every entry is exact, and every name that has a text has an entry. -/
structure Finished (expansions : String → Option String) (table : AliasTable) :
    Prop where
  exact {entry : AliasEntry} : entry ∈ table.entries →
    ∃ survey, table.Exact expansions entry survey
  finds {name expansion : String} : expansions name = some expansion →
    ∃ entry, table.find? name = some entry

theorem finished_of_build {definitions : List (String × String)} {table : AliasTable}
    (built : AliasTable.build definitions = .ok table) :
    table.Finished (Build.expansion? definitions) where
  exact member := build_forall
    (fun _ _ _ _ _ _ _ reads extended => reads.exact extended) built _ member table
    (.refl table)
  finds defined := by
    obtain ⟨entry, found, -⟩ := build_entry built defined
    exact ⟨entry, found⟩

theorem Finished.exact_of_find? {expansions : String → Option String}
    {table : AliasTable} (finished : table.Finished expansions) {name : String}
    {entry : AliasEntry} (found : table.find? name = some entry) :
    ∃ survey, table.Exact expansions entry survey :=
  finished.exact (List.mem_of_find?_eq_some found)

/-- Every entry of a finished table is the one of its name. -/
theorem Finished.find?_of_mem {expansions : String → Option String}
    {table : AliasTable} (finished : table.Finished expansions) {entry : AliasEntry}
    (member : entry ∈ table.entries) : table.find? entry.name = some entry := by
  obtain ⟨_, exact⟩ := finished.exact member
  obtain ⟨candidate, found⟩ := finished.finds exact.defined
  obtain ⟨_, exactCandidate⟩ := finished.exact_of_find? found
  rw [found, exactCandidate.unique exact (find?_name found)]

/-- Finished tables for the same texts have the same entries: by induction on how deep
an entry is, since the aliases that it refers to are less deep. -/
theorem Finished.extendedBy {expansions : String → Option String}
    {table other : AliasTable} (finished : table.Finished expansions)
    (finishedOther : other.Finished expansions) : table.ExtendedBy other := by
  intro name entry found
  obtain ⟨bound, shallow⟩ : ∃ bound, entry.depth ≤ bound := ⟨_, Nat.le_refl _⟩
  induction bound generalizing name entry with
  | zero =>
      obtain ⟨survey, exact⟩ := finished.exact_of_find? found
      have positive := exact.depth
      omega
  | succ bound induction =>
      obtain ⟨survey, exact⟩ := finished.exact_of_find? found
      have follows : Follows table.surveying other.surveying
          (fun survey => survey.depth ≤ bound) Build.Survey.Alike := by
        intro reference known selector after expanded final
        obtain ⟨entered, isKnown, rfl, rfl⟩ := surveying_expand_iff.mp expanded
        obtain ⟨less, inside⟩ := known.le_depth_note entered known.table
        refine ⟨Nat.le_trans less final, fun state alike => ?_⟩
        exact ⟨_, alike.note entered known.table state.table, surveying_expand_iff.mpr
          ⟨entered, induction reference entered isKnown (Nat.le_trans inside final),
            rfl, rfl⟩⟩
      have final : survey.depth ≤ bound := by
        have depth := exact.depth
        omega
      obtain ⟨-, leads⟩ :=
        yields_read_carried follows (Nat.le_refl _) [] exact.surveyed final
      obtain ⟨after, alike, surveyed⟩ := leads ⟨other, 0, none⟩ ⟨rfl, rfl⟩
      have exactThere : other.Exact expansions entry after :=
        ⟨exact.defined, surveyed, alike.depth ▸ exact.depth, alike.via ▸ exact.via⟩
      have named := find?_name found
      obtain ⟨candidate, known⟩ := finishedOther.finds (named ▸ exact.defined)
      obtain ⟨_, exactOther⟩ := finishedOther.exact_of_find? known
      rw [known, exactThere.unique exactOther (named.trans (find?_name known).symm)]

/-! ## Reading in another order -/

namespace Build

variable {definitions others : List (String × String)} {table finished : AliasTable}
  {stack : List String} {name : String} {found : AliasEntry}

/-- All that is being read has an entry in a table, and one that is deeper than a
number. -/
def Encloses (table : AliasTable) (stack : List String) (depth : Nat) : Prop :=
  ∀ other ∈ stack, ∃ outer, table.find? other = some outer ∧ depth < outer.depth

private theorem Encloses.not_mem (encloses : Encloses table stack found.depth)
    (known : table.find? name = some found) : name ∉ stack := by
  intro member
  obtain ⟨outer, same, deeper⟩ := encloses name member
  obtain rfl := Option.some.inj (same.symm.trans known)
  exact Nat.lt_irrefl _ deeper

private theorem Encloses.enter {depth : Nat} (encloses : Encloses table stack found.depth)
    (known : table.find? name = some found) (lower : depth < found.depth) :
    Encloses table (stack ++ [name]) depth := by
  intro other member
  rcases List.mem_append.mp member with member | member
  · obtain ⟨outer, same, deeper⟩ := encloses other member
    exact ⟨outer, same, Nat.lt_trans lower deeper⟩
  · obtain rfl := List.mem_singleton.mp member
    exact ⟨found, known, lower⟩

/-- Where a finished table has an entry that is no deeper than the levels that are
left, and less deep than all that is being read, the entry is found or read. -/
theorem exists_entry (isFinished : finished.Finished (expansion? definitions))
    {levels : Nat} (grows : table.ExtendedBy finished)
    (known : finished.find? name = some found) (shallow : found.depth ≤ levels)
    (encloses : Encloses finished stack found.depth) :
    ∃ result, entry definitions levels stack name table = .ok (found, result) ∧
      result.ExtendedBy finished := by
  induction levels generalizing stack name found table with
  | zero =>
      obtain ⟨survey, exact⟩ := isFinished.exact_of_find? known
      have positive := exact.depth
      omega
  | succ levels induction =>
      cases unknown : table.find? name with
      | some entered =>
          obtain rfl : entered = found :=
            Option.some.inj ((grows _ _ unknown).symm.trans known)
          exact ⟨table, by rw [entry, unknown], grows⟩
      | none =>
          obtain ⟨survey, exact⟩ := isFinished.exact_of_find? known
          have named := find?_name known
          -- The references are less deep, so that they are entered by induction.
          have follows : Follows finished.surveying
              (references definitions levels (stack ++ [name]))
              (fun survey => survey.depth < found.depth) fun survey state =>
                survey.Alike state ∧ state.table.ExtendedBy finished := by
            intro reference before selector after expanded final
            obtain ⟨entered, isKnown, rfl, rfl⟩ := surveying_expand_iff.mp expanded
            obtain ⟨less, inside⟩ := before.le_depth_note entered before.table
            have lower : entered.depth < found.depth := Nat.lt_of_le_of_lt inside final
            refine ⟨Nat.lt_of_le_of_lt less final, fun state related => ?_⟩
            obtain ⟨alike, extended⟩ := related
            obtain ⟨left, built, leftExtended⟩ := induction extended isKnown
              (Nat.le_of_lt_succ (Nat.lt_of_lt_of_le lower shallow))
              (encloses.enter known lower)
            obtain ⟨_, exactEntered⟩ := isFinished.exact_of_find? isKnown
            have defined := exactEntered.defined
            rw [find?_name isKnown] at defined
            refine ⟨_, ⟨alike.note entered before.table left, ?_⟩,
              references_expand_iff.mpr
                ⟨by rw [defined]; rfl, entered, left, built, rfl, rfl⟩⟩
            rwa [Survey.note_table]
          have depth := exact.depth
          obtain ⟨-, leads⟩ := yields_read_carried follows (Nat.le_refl _) []
            exact.surveyed (show survey.depth < found.depth by omega)
          obtain ⟨after, ⟨alike, extended⟩, read⟩ :=
            leads ⟨table, 0, none⟩ ⟨⟨rfl, rfl⟩, grows⟩
          have reads : Reads definitions levels stack name table found after :=
            ⟨unknown, encloses.not_mem known, named ▸ exact.defined, named,
              alike.depth ▸ exact.depth, alike.via ▸ exact.via, read⟩
          exact ⟨_, entry_of_reads reads, extended.append (named ▸ known)⟩

/-- So all definitions are read, in whatever order they come. -/
theorem exists_foldlM (isFinished : finished.Finished (expansion? definitions))
    {levels : Nat} (grows : table.ExtendedBy finished)
    (entered : ∀ definition ∈ others, ∃ found,
      finished.find? definition.1 = some found ∧ found.depth ≤ levels) :
    ∃ result, others.foldlM (step definitions levels) table = .ok result := by
  induction others generalizing table with
  | nil => exact ⟨table, rfl⟩
  | cons definition rest induction =>
      obtain ⟨found, known, shallow⟩ := entered definition List.mem_cons_self
      obtain ⟨between, built, extended⟩ :=
        exists_entry isFinished grows known shallow fun _ member =>
          (List.not_mem_nil member).elim
      obtain ⟨result, continued⟩ := induction extended fun other member =>
        entered other (List.mem_cons_of_mem _ member)
      refine ⟨result, ?_⟩
      rw [List.foldlM_cons, bind_eq_ok]
      exact ⟨between, step_eq_ok_iff.mpr ⟨found, built⟩, continued⟩

private theorem expansion?_eq_of_perm (permuted : definitions.Perm others)
    (distinct : (definitions.map Prod.fst).Nodup) :
    expansion? definitions = expansion? others := by
  funext name
  refine lookup_eq_of_perm ?_ ?_ name
  · rwa [List.map_reverse, List.nodup_reverse]
  · exact ((List.reverse_perm _).trans permuted).trans (List.reverse_perm _).symm

/-- Reading depends on the definitions only through the texts of names. -/
theorem entry_congr (same : expansion? definitions = expansion? others) :
    entry definitions = entry others := by
  funext levels
  induction levels with
  | zero =>
      funext stack name table
      rw [entry, entry]
  | succ levels induction =>
      funext stack name table
      rw [entry, entry, same, induction]

end Build

theorem build_eq_of_perm {definitions others : List (String × String)}
    (permuted : definitions.Perm others)
    (distinct : (definitions.map Prod.fst).Nodup) :
    AliasTable.build others =
      others.foldlM (Build.step definitions ({} : CompileLimits).maxAliasDepth) ⟨[]⟩ := by
  have same := Build.entry_congr (Build.expansion?_eq_of_perm permuted distinct)
  have steps : Build.step others = Build.step definitions := by
    funext levels table definition
    rw [Build.step, Build.step, same]
  rw [build_eq_foldlM, steps]

/-- A table that is nowhere deeper than the limit is built from the definitions in any
order, up to the order of its entries. -/
theorem exists_build_of_perm {definitions others : List (String × String)}
    (permuted : definitions.Perm others) (distinct : (definitions.map Prod.fst).Nodup)
    {table : AliasTable} (built : AliasTable.build definitions = .ok table)
    (within : table.Within ({} : CompileLimits).maxAliasDepth) :
    ∃ other, AliasTable.build others = .ok other ∧
      other.Within ({} : CompileLimits).maxAliasDepth := by
  have finished := finished_of_build built
  have same := Build.expansion?_eq_of_perm permuted distinct
  have entered : ∀ definition ∈ others, ∃ entry,
      table.find? definition.1 = some entry ∧
        entry.depth ≤ ({} : CompileLimits).maxAliasDepth := by
    intro definition member
    obtain ⟨entry, found⟩ := foldlM_finds (build_eq_foldlM definitions ▸ built)
      definition (permuted.mem_iff.mpr member)
    exact ⟨entry, found, within entry (List.mem_of_find?_eq_some found)⟩
  have start : ExtendedBy ⟨[]⟩ table := fun _ _ known => by cases known
  obtain ⟨other, builtOther⟩ := Build.exists_foldlM finished start entered
  rw [← build_eq_of_perm permuted distinct] at builtOther
  have finishedOther := finished_of_build builtOther
  rw [← same] at finishedOther
  refine ⟨other, builtOther, fun entry member => within entry ?_⟩
  exact List.mem_of_find?_eq_some
    (finishedOther.extendedBy finished _ _ (finishedOther.find?_of_mem member))

/-- If no name is defined twice, then all tables that are built from the definitions, in
whatever order they come, agree on what every name stands for: its text, its selector,
how deep it is, and the next alias.  Whether there is a table with no alias deeper than
the limit does not depend on the order, either. -/
theorem build_perm {definitions others : List (String × String)}
    (permuted : definitions.Perm others)
    (distinct : (definitions.map Prod.fst).Nodup) :
    (∀ table other, AliasTable.build definitions = .ok table →
        AliasTable.build others = .ok other →
        ∀ name, table.find? name = other.find? name) ∧
      ((∃ table, AliasTable.build definitions = .ok table ∧
          table.Within ({} : CompileLimits).maxAliasDepth) ↔
        ∃ other, AliasTable.build others = .ok other ∧
          other.Within ({} : CompileLimits).maxAliasDepth) := by
  have same := Build.expansion?_eq_of_perm permuted distinct
  have distinctOthers : (others.map Prod.fst).Nodup :=
    (permuted.map Prod.fst).nodup_iff.mp distinct
  refine ⟨?entries, ?first, ?second⟩
  case entries =>
    intro table other built builtOther name
    have finished := finished_of_build built
    have finishedOther := finished_of_build builtOther
    rw [← same] at finishedOther
    exact Option.ext fun entry => ⟨finished.extendedBy finishedOther name entry,
      finishedOther.extendedBy finished name entry⟩
  case first =>
    intro ⟨table, built, within⟩
    exact exists_build_of_perm permuted distinct built within
  case second =>
    intro ⟨other, built, within⟩
    exact exists_build_of_perm permuted.symm distinctOthers built within

/-- Listed in either order, the two aliases make up the same table. -/
theorem build_perm_strong :
    strongDefinitions.Perm strongDefinitions.reverse ∧
      (strongDefinitions.map Prod.fst).Nodup ∧
      build strongDefinitions = .ok strongTable ∧
      ∃ other, build strongDefinitions.reverse = .ok other ∧
        ∀ name, strongTable.find? name = other.find? name := by
  have permuted : strongDefinitions.Perm strongDefinitions.reverse :=
    (List.reverse_perm _).symm
  have distinct : (strongDefinitions.map Prod.fst).Nodup := by decide
  have built : build strongDefinitions = .ok strongTable := by decide +kernel
  have within : strongTable.Within ({} : CompileLimits).maxAliasDepth := by
    unfold Within
    decide
  obtain ⟨entries, builds⟩ := build_perm permuted distinct
  obtain ⟨other, builtOther, -⟩ := builds.mp ⟨_, built, within⟩
  exact ⟨permuted, distinct, built, other, builtOther,
    entries strongTable other built builtOther⟩

/-- As many aliases as the limit allows and one more, each of which refers to the
next. -/
def longChain : List (String × String) :=
  [("a1", ":a2"), ("a2", ":a3"), ("a3", ":a4"), ("a4", ":a5"), ("a5", ":a6"),
    ("a6", ":a7"), ("a7", ":a8"), ("a8", ":a9"), ("a9", ":a10"), ("a10", ":a11"),
    ("a11", ":a12"), ("a12", ":a13"), ("a13", ":a14"), ("a14", ":a15"),
    ("a15", ":a16"), ("a16", ":a17"), ("a17", "b")]

/-- The long chain is rejected if it is listed from its start, and accepted if it is
listed from its end, although its first alias is too deep. -/
theorem not_build_iff_longChain :
    longChain.Perm longChain.reverse ∧ (longChain.map Prod.fst).Nodup ∧
      build longChain = .error (.aliasCycle (longChain.map Prod.fst)) ∧
      ∃ table entry, build longChain.reverse = .ok table ∧
        table.find? "a1" = some entry ∧
        ({} : CompileLimits).maxAliasDepth < entry.depth := by
  have rejected : build longChain = .error (.aliasCycle (longChain.map Prod.fst)) := by
    decide +kernel
  have deep : (build longChain.reverse).toOption.bind
      (fun table => (table.find? "a1").map AliasEntry.depth) = some 17 := by
    decide +kernel
  refine ⟨(List.reverse_perm _).symm, by decide, rejected, ?_⟩
  cases accepted : build longChain.reverse with
  | error failure =>
      rw [accepted] at deep
      cases deep
  | ok table =>
      rw [accepted] at deep
      obtain ⟨entry, found, depth⟩ := Option.map_eq_some_iff.mp deep
      exact ⟨table, entry, rfl, found, depth ▸ by decide⟩

end AliasTable

end TreeSelectors
