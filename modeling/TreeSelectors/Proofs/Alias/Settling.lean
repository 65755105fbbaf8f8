import TreeSelectors.Proofs.Alias.Building
import TreeSelectors.Proofs.Selector.Transfer

/-!
# What an alias stands for does not change

While a table is built, definitions are read with the entries that are there so far.
Entries are only added, and never for a definition that is still being read, so every
later table answers the references of an expansion as they were answered then.
Reading the expansion again, with any such table, has the same result.
-/

namespace TreeSelectors

open Grammar Reading

namespace AliasTable

/-- Every name that is found in the first table stands for the same in the second
one. -/
def ExtendedBy (table later : AliasTable) : Prop :=
  ∀ name entry, table.find? name = some entry → later.find? name = some entry

theorem ExtendedBy.refl (table : AliasTable) : table.ExtendedBy table :=
  fun _ _ found => found

theorem ExtendedBy.trans {first second third : AliasTable}
    (extended : first.ExtendedBy second) (further : second.ExtendedBy third) :
    first.ExtendedBy third :=
  fun name entry found => further name entry (extended name entry found)

theorem find?_append (table : AliasTable) (entry : AliasEntry) (name : String) :
    find? ⟨table.entries ++ [entry]⟩ name =
      (table.find? name).or (if entry.name = name then some entry else none) := by
  simp only [find?, List.find?_append, List.find?_singleton, decide_eq_true_eq]

private theorem extendedBy_append (table : AliasTable) (entry : AliasEntry) :
    table.ExtendedBy ⟨table.entries ++ [entry]⟩ := by
  intro name found known
  rw [find?_append, known, Option.some_or]

/-- A table that is extended by a later one still is when an entry of that one is
added. -/
theorem ExtendedBy.append {table later : AliasTable} {entry : AliasEntry}
    (extended : table.ExtendedBy later) (known : later.find? entry.name = some entry) :
    ExtendedBy ⟨table.entries ++ [entry]⟩ later := by
  intro name found isFound
  rw [find?_append] at isFound
  rcases Option.or_eq_some_iff.mp isFound with before | ⟨-, added⟩
  · exact extended name found before
  · obtain ⟨rfl, same⟩ := Option.ite_none_right_eq_some.mp added
    exact known.trans same

theorem find?_name {table : AliasTable} {name : String} {entry : AliasEntry}
    (found : table.find? name = some entry) : entry.name = name := by
  have holds := List.find?_some found
  simpa using holds

/-- No alias of the table is deeper than a limit. -/
def Within (table : AliasTable) (limit : Nat) : Prop :=
  ∀ entry ∈ table.entries, entry.depth ≤ limit

theorem exists_within (table : AliasTable) : ∃ limit, table.Within limit := by
  obtain ⟨entries⟩ := table
  induction entries with
  | nil => exact ⟨0, fun entry member => by cases member⟩
  | cons first rest induction =>
      obtain ⟨limit, within⟩ := induction
      refine ⟨max first.depth limit, fun entry member => ?_⟩
      rcases List.mem_cons.mp member with rfl | member
      · exact Nat.le_max_left _ _
      · exact Nat.le_trans (within entry member) (Nat.le_max_right _ _)

/-- The entry has the last expansion of its name, and every table that extends the given
one reads its selector from it. -/
def SettledEntry (definitions : List (String × String)) (table : AliasTable)
    (entry : AliasEntry) : Prop :=
  Build.expansion? definitions entry.name = some entry.expansion ∧
    ∀ later limit, table.ExtendedBy later → later.Within limit →
      Yields (Selector.read (later.source limit) ({} : CompileLimits).maxNesting
        entry.expansion) [] () entry.selector ()

def Settled (definitions : List (String × String)) (table : AliasTable) : Prop :=
  ∀ entry ∈ table.entries, table.SettledEntry definitions entry

namespace Build

variable {definitions : List (String × String)} {levels : Nat}
  {stack : List String} {name : String} {table result : AliasTable}
  {found : AliasEntry}

/-- The names in `stack` keep what they stand for, or stay unknown. -/
def Keeps (stack : List String) (table later : AliasTable) : Prop :=
  ∀ name ∈ stack, later.find? name = table.find? name

/-- What looking up an entry does to a table. -/
structure Enters (stack : List String) (name : String) (table : AliasTable)
    (found : AliasEntry) (result : AliasTable) : Prop where
  extended : table.ExtendedBy result
  kept : Keeps stack table result
  isFound : result.find? name = some found

section

variable (enters : ∀ stack name table found result,
  entry definitions levels stack name table = .ok (found, result) →
    Enters stack name table found result)
include enters

/-- A table that extends what is known after a reference answers it alike. -/
theorem references_matched {later : AliasTable} {limit : Nat}
    (within : later.Within limit) (last : AliasTable) :
    Matched (references definitions levels stack) (later.source limit)
      (fun survey => survey.table.ExtendedBy later ∧ Keeps stack survey.table last)
      () := by
  intro reference known selector after expanded final
  obtain ⟨entered, built, rfl⟩ := references_expand expanded
  have step := enters _ _ _ _ _ built
  obtain ⟨extended, kept⟩ := final
  have found : later.find? reference = some entered := extended _ _ step.isFound
  refine ⟨⟨step.extended.trans extended, fun other member => ?_⟩,
    source_expand_iff.mpr ⟨entered, found, within _ (List.mem_of_find?_eq_some found),
      rfl⟩⟩
  rw [kept other member, step.kept other member]

end

/-- Looking up an entry adds to the table, but nothing for the definitions that are being
read. -/
theorem entry_enters
    (built : entry definitions levels stack name table = .ok (found, result)) :
    Enters stack name table found result := by
  refine entry_induction (motive := Enters) ?_ ?_ built
  · intro stack name table found known
    exact ⟨.refl table, fun _ _ => rfl, known⟩
  · intro levels stack name table found survey induction reads
    obtain ⟨limit, within⟩ := survey.table.exists_within
    -- What the references have left already answers as they were answered.
    obtain ⟨extended, kept⟩ :=
      (yields_read_transfer (references_matched induction within survey.table)
        (Nat.le_refl _) [] reads.read ⟨.refl _, fun _ _ => rfl⟩).1
    refine ⟨extended.trans (extendedBy_append _ _), fun other member => ?_, ?_⟩
    · have different : found.name ≠ other := by
        rintro rfl
        exact reads.fresh (reads.named ▸ member)
      rw [find?_append, if_neg different, Option.or_none,
        kept other (List.mem_append_left _ member)]
    · have absent : survey.table.find? name = none := by
        rw [kept name (List.mem_append_right _ List.mem_cons_self), reads.unknown]
      rw [find?_append, absent, if_pos reads.named, Option.none_or]

/-- What holds of every entry once it is read, in all tables that have grown out of it,
goes on to hold of all entries. -/
theorem entry_forall {holds : AliasTable → AliasEntry → Prop}
    (reads : ∀ levels stack name table found survey later,
      Reads definitions levels stack name table found survey →
      survey.table.ExtendedBy later → holds later found)
    (sound : table.Sound)
    (known : ∀ entry ∈ table.entries, ∀ later, table.ExtendedBy later → holds later entry)
    (built : entry definitions levels stack name table = .ok (found, result)) :
    ∀ entry ∈ result.entries, ∀ later, result.ExtendedBy later → holds later entry := by
  revert sound known
  refine entry_induction (motive := fun _ _ table _ result => table.Sound →
    (∀ entry ∈ table.entries, ∀ later, table.ExtendedBy later → holds later entry) →
    ∀ entry ∈ result.entries, ∀ later, result.ExtendedBy later → holds later entry)
    ?_ ?_ built
  · intro stack name table found isKnown sound known
    exact known
  · intro levels stack name table found survey induction isRead sound known
    have keeps : KeepsSound (references definitions levels (stack ++ [name]))
        fun survey => survey.table.Sound ∧ ∀ entry ∈ survey.table.entries,
          ∀ later, survey.table.ExtendedBy later → holds later entry := by
      intro reference before after selector start expanded
      obtain ⟨entered, built, rfl⟩ := references_expand expanded
      obtain ⟨soundAfter, selects⟩ := entry_sound start.1 built
      exact ⟨⟨soundAfter, induction _ _ _ _ _ built start.1 start.2⟩, selects⟩
    have before := (sound_of_read keeps isRead.read ⟨sound, known⟩).1.2
    have extended := extendedBy_append survey.table found
    intro entry member later further
    rcases List.mem_append.mp member with member | member
    · exact before entry member later (extended.trans further)
    · obtain rfl := List.mem_singleton.mp member
      exact reads _ _ _ _ _ _ _ isRead (extended.trans further)

theorem mem_of_expansion? {expansion : String}
    (defined : expansion? definitions name = some expansion) :
    (name, expansion) ∈ definitions := by
  obtain ⟨after, before, split, -⟩ := List.lookup_eq_some_iff.mp defined
  rw [← List.mem_reverse, split]
  exact List.mem_append_right _ List.mem_cons_self

theorem isSome_expansion?_of_mem {definition : String × String}
    (member : definition ∈ definitions) :
    (expansion? definitions definition.1).isSome := by
  rw [expansion?, Option.isSome_iff_ne_none, ne_eq, List.lookup_eq_none_iff]
  intro absent
  simpa using absent definition (List.mem_reverse.mpr member)

end Build

/-- After all definitions, each of their names has an entry. -/
theorem foldlM_finds {definitions all : List (String × String)} {levels : Nat}
    {table result : AliasTable}
    (built : definitions.foldlM (Build.step all levels) table = .ok result) :
    ∀ definition ∈ definitions, ∃ entry, result.find? definition.1 = some entry := by
  induction definitions generalizing table with
  | nil => exact fun _ member => by cases member
  | cons definition others induction =>
      rw [List.foldlM_cons, bind_eq_ok] at built
      obtain ⟨between, first, built⟩ := built
      obtain ⟨entry, entered⟩ := Build.step_eq_ok_iff.mp first
      intro other member
      rcases List.mem_cons.mp member with rfl | member
      · have extended : between.ExtendedBy result :=
          foldlM_invariant
            (fun _ _ _ _ extended entered =>
              extended.trans (Build.entry_enters entered).extended)
            (.refl between) built
        exact ⟨entry, extended _ _ (Build.entry_enters entered).isFound⟩
      · exact induction built other member

/-- What holds of every entry once it is read, in all tables that have grown out of it,
holds of the entries of a finished table. -/
theorem build_forall {definitions : List (String × String)}
    {holds : AliasTable → AliasEntry → Prop}
    (reads : ∀ levels stack name table found survey later,
      Build.Reads definitions levels stack name table found survey →
      survey.table.ExtendedBy later → holds later found)
    {table : AliasTable} (built : AliasTable.build definitions = .ok table) :
    ∀ entry ∈ table.entries, ∀ later, table.ExtendedBy later → holds later entry := by
  rw [build_eq_foldlM] at built
  refine (@foldlM_invariant definitions definitions _ (fun table => table.Sound ∧
    ∀ entry ∈ table.entries, ∀ later, table.ExtendedBy later → holds later entry)
    ?_ _ _ ?_ built).2
  · intro name before found after start entered
    exact ⟨(Build.entry_sound start.1 entered).1,
      Build.entry_forall reads start.1 start.2 entered⟩
  · exact ⟨fun _ member => (List.not_mem_nil member).elim,
      fun _ member => (List.not_mem_nil member).elim⟩

/-- The entries of a finished table are settled. -/
theorem build_settled {definitions : List (String × String)} {table : AliasTable}
    (built : AliasTable.build definitions = .ok table) : table.Settled definitions := by
  have settled := @build_forall definitions (fun later entry =>
    Build.expansion? definitions entry.name = some entry.expansion ∧
      ∀ limit, later.Within limit → Yields (Selector.read (later.source limit)
        ({} : CompileLimits).maxNesting entry.expansion) [] () entry.selector ()) ?_
    table built
  · exact fun entry member => ⟨(settled entry member table (.refl table)).1,
      fun later limit further => (settled entry member later further).2 limit⟩
  · intro levels stack name before found survey later reads further
    refine ⟨by rw [reads.named, reads.defined], fun limit within => ?_⟩
    have enters := fun stack name table found result =>
      @Build.entry_enters definitions levels stack name table result found
    exact (yields_read_transfer (Build.references_matched enters within survey.table)
      (Nat.le_refl _) [] reads.read ⟨further, fun _ _ => rfl⟩).2

/-- The entry of a defined name has the last text that was given for the name, and
the selector that the text is read as with the finished table. -/
theorem build_entry {definitions : List (String × String)} {table : AliasTable}
    (built : AliasTable.build definitions = .ok table) {name expansion : String}
    (defined : Build.expansion? definitions name = some expansion) :
    ∃ entry, table.find? name = some entry ∧ entry.expansion = expansion ∧
      ∀ limit, table.Within limit →
        Yields (Selector.read (table.source limit) ({} : CompileLimits).maxNesting
          expansion) [] () entry.selector () := by
  obtain ⟨entry, found⟩ := foldlM_finds (build_eq_foldlM definitions ▸ built) _
    (Build.mem_of_expansion? defined)
  obtain ⟨last, reads⟩ := build_settled built entry (List.mem_of_find?_eq_some found)
  rw [find?_name found, defined, Option.some.injEq] at last
  refine ⟨entry, found, last.symm, ?_⟩
  intro limit within
  rw [last]
  exact reads table limit (.refl table) within

end AliasTable

end TreeSelectors
