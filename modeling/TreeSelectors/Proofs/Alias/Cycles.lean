import TreeSelectors.Proofs.Alias.References
import TreeSelectors.Proofs.Selector.Tracking

/-!
# Circles of references

The definitions that are being read make up a chain of references, since each of them is
read because the text of the one before calls it.  So what is reported when a name comes
up again, or when too many definitions are being read, is such a chain.  No reader fails
like that by itself: whatever else goes wrong, goes wrong just the same if all references
are resolved somehow.
-/

namespace TreeSelectors

open Grammar Reading

namespace AliasTable

namespace Build

variable {definitions : List (String × String)} {meaning : String → Selector}
  {levels : Nat} {stack : List String} {name text : String} {table : AliasTable}
  {failure : ParseError}

/-- All aliases that have a text, resolved to given selectors without reading any text. -/
def resolving (definitions : List (String × String)) (meaning : String → Selector) :
    AliasSource Unit where
  expand name := return (expansion? definitions name).map fun _ => meaning name
  isAlias name := (expansion? definitions name).isSome

/-- The text can be read if its references are taken as resolved. -/
def Parses (definitions : List (String × String)) (meaning : String → Selector)
    (text : String) : Prop :=
  ∃ selector, Yields (Selector.read (resolving definitions meaning)
    ({} : CompileLimits).maxNesting text) [] () selector ()

/-- Whether a text parses is found out by reading it. -/
def parses (definitions : List (String × String)) (meaning : String → Selector)
    (text : String) : Bool :=
  match Selector.read (resolving definitions meaning) ({} : CompileLimits).maxNesting text
      ⟨(), []⟩ with
  | .ok _ _ => true
  | .error _ _ => false

theorem parses_iff : parses definitions meaning text = true ↔
    Parses definitions meaning text := by
  simp only [parses, Parses, Yields]
  split
  · rename_i selector progress read
    exact iff_of_true rfl ⟨selector, progress.remarks, read⟩
  · rename_i read
    refine iff_of_false Bool.false_ne_true ?_
    rintro ⟨selector, remarks, again⟩
    cases read.symm.trans again

instance : Decidable (Parses definitions meaning text) :=
  decidable_of_iff _ parses_iff

/-- A chain of references whose last name stands in it before, or one of more names than
may be read at a time. -/
structure Circles (definitions : List (String × String)) (chain : List String) : Prop where
  linked : chain.IsChain (References (expansion? definitions))
  returns : (∃ last ∈ chain.dropLast, chain.getLast? = some last) ∨
    ({} : CompileLimits).maxAliasDepth < chain.length

/-- The failures of entering the names that a text calls. -/
def FailsAt (definitions : List (String × String)) (levels : Nat) (stack : List String)
    (text : String) (failure : ParseError) : Prop :=
  ∃ reference ∈ Token.called (Token.scan text),
    (expansion? definitions reference).isSome ∧
      ∃ table, entry definitions levels stack reference table = .error failure

/-- While a text is read, its references fail as entering them does, and otherwise are
found if they have a text. -/
theorem references_tracks (definitions : List (String × String))
    (meaning : String → Selector) (levels : Nat) (stack : List String) (text : String) :
    (references definitions levels stack).Tracks (FailsAt definitions levels stack text)
      (resolving definitions meaning) (Token.called (Token.scan text)) where
  isAlias := rfl
  expand reference member := by
    refine .expand (fun survey failure failed => ?_) fun survey state found later answered => ?_
    · simp only [references, StateT.run] at failed
      split at failed
      · cases failed
      · rename_i defined
        split at failed
        · rename_i entering
          cases failed
          exact ⟨reference, member, by simpa [Option.isSome_iff_ne_none] using defined,
            survey.table, entering⟩
        · cases failed
    · refine ⟨_, (), rfl, ?_⟩
      simp only [references, StateT.run] at answered
      split at answered
      · rename_i undefined
        cases answered
        simp [Option.isNone_iff_eq_none.mp undefined]
      · rename_i defined
        split at answered
        · cases answered
        · cases answered
          simpa [Option.isSome_iff_ne_none] using defined

/-- A reference is part of a circle or too deep, its text fails to be read, or it has
none. -/
theorem entry_error_cases
    (failed : entry definitions levels stack name table = .error failure) :
    failure = .aliasCycle (stack ++ [name]) ∧ (name ∈ stack ∨ levels = 0) ∨
      expansion? definitions name = none ∨
      ∃ fewer expansion progress, levels = fewer + 1 ∧
        expansion? definitions name = some expansion ∧
        Selector.read (references definitions fewer (stack ++ [name]))
          ({} : CompileLimits).maxNesting expansion ⟨⟨table, 0, none⟩, []⟩ =
            .error failure progress := by
  unfold entry at failed
  split at failed
  · cases failed
  · split at failed
    · rename_i again
      cases failed
      exact .inl ⟨rfl, .inl again⟩
    · split at failed
      · cases failed
        exact .inl ⟨rfl, .inr rfl⟩
      · split at failed
        · rename_i undefined
          exact .inr (.inl undefined)
        · rename_i expansion defined
          dsimp only at failed
          split at failed
          · rename_i progress read
            cases failed
            exact .inr (.inr ⟨_, expansion, progress, rfl, defined, read⟩)
          · cases failed

/-- A failure while a text is read comes from one of its references, or it is not about
a circle and there is one as well if all references are resolved. -/
theorem read_error_cases (meaning : String → Selector) {survey : Survey}
    {progress : Progress Survey}
    (failed : Selector.read (references definitions levels stack)
      ({} : CompileLimits).maxNesting text ⟨survey, []⟩ = .error failure progress) :
    FailsAt definitions levels stack text failure ∨
      ¬ failure.IsCycle ∧ ¬ Parses definitions meaning text := by
  have outcomes := Selector.Parser.readAll_tracks
    (Nat.le_refl ({} : CompileLimits).maxNesting) (.inr rfl) (Token.scan text)
    (references_tracks definitions meaning levels stack text)
    ⟨survey, []⟩ ⟨(), []⟩
  rw [Selector.read] at failed
  rw [failed] at outcomes
  generalize resolved : Selector.Parser.readAll (resolving definitions meaning)
    ({} : CompileLimits).maxNesting (Token.scan text) ⟨(), []⟩ = result at outcomes
  cases outcomes with
  | refused fails => exact .inl fails
  | failed own =>
      refine .inr ⟨own, fun parses => ?_⟩
      obtain ⟨selector, remarks, read⟩ := parses
      cases resolved.symm.trans read

/-- Why a definition is not entered: by induction on the number of definitions that may
still be read inside, with the stack being a chain of references. -/
theorem entry_error (meaning : String → Selector)
    (bounded : stack.length + levels = ({} : CompileLimits).maxAliasDepth)
    (linked : (stack ++ [name]).IsChain (References (expansion? definitions)))
    (defined : (expansion? definitions name).isSome)
    (failed : entry definitions levels stack name table = .error failure) :
    (∃ chain, failure = .aliasCycle chain ∧ Circles definitions chain) ∨
      ¬ failure.IsCycle ∧ ∃ other expansion,
        expansion? definitions other = some expansion ∧
          ¬ Parses definitions meaning expansion := by
  induction levels generalizing stack name table with
  | zero =>
      rcases entry_error_cases failed with
        ⟨rfl, -⟩ | undefined | ⟨_, _, _, impossible, -⟩
      · refine .inl ⟨_, rfl, linked, .inr ?_⟩
        rw [List.length_append, List.length_singleton]
        omega
      · rw [undefined] at defined
        cases defined
      · cases impossible
  | succ levels induction =>
      rcases entry_error_cases failed with
        ⟨rfl, again | impossible⟩ | undefined | ⟨_, expansion, _, same, isText, read⟩
      · exact .inl ⟨_, rfl, linked, .inl ⟨name, by simpa using again, by simp⟩⟩
      · cases impossible
      · rw [undefined] at defined
        cases defined
      · obtain rfl := Nat.succ.inj same
        rcases read_error_cases meaning read with
          ⟨reference, member, isDefined, state, entering⟩ | ⟨own, unreadable⟩
        · refine induction ?_ ?_ isDefined entering
          · rw [List.length_append, List.length_singleton]
            omega
          · refine linked.append (.singleton reference) ?_
            intro last isLast first isFirst
            simp only [List.getLast?_append, List.getLast?_singleton, Option.some_or,
              Option.mem_some_iff, List.head?_cons] at isLast isFirst
            subst isLast isFirst
            exact ⟨expansion, isText, member, isDefined⟩
        · exact .inr ⟨own, name, expansion, isText, unreadable⟩

/-- If the definitions cannot be read one after the other, then one of them cannot. -/
theorem foldlM_error {others : List (String × String)}
    (failed : others.foldlM (step definitions levels) table = .error failure) :
    ∃ definition ∈ others, ∃ before,
      entry definitions levels [] definition.1 before = .error failure := by
  induction others generalizing table with
  | nil => cases failed
  | cons definition rest induction =>
      rw [List.foldlM_cons] at failed
      cases entered : entry definitions levels [] definition.1 table with
      | error other =>
          rw [step, entered] at failed
          cases failed
          exact ⟨definition, List.mem_cons_self, table, entered⟩
      | ok answer =>
          rw [step, entered] at failed
          obtain ⟨later, member, before, entering⟩ := induction failed
          exact ⟨later, List.mem_cons_of_mem _ member, before, entering⟩

end Build

open Build

/-- Building a table fails with a circle, or because of a text that cannot be read however
its references are resolved. -/
theorem build_error {definitions : List (String × String)} {failure : ParseError}
    (meaning : String → Selector)
    (failed : AliasTable.build definitions = .error failure) :
    (∃ chain, failure = .aliasCycle chain ∧ Circles definitions chain) ∨
      ¬ failure.IsCycle ∧ ∃ name expansion,
        expansion? definitions name = some expansion ∧
          ¬ Parses definitions meaning expansion := by
  rw [build_eq_foldlM] at failed
  obtain ⟨definition, member, before, entering⟩ := foldlM_error failed
  exact entry_error meaning (Nat.zero_add _) (.singleton definition.1)
    (isSome_expansion?_of_mem member) entering

/-- There is a table, or a circle is reported, or some text cannot be read.  No table is
built if some alias refers to itself, maybe through others; then a circle is reported,
provided that all texts can be read once their references are taken as resolved to
anything.  And what is reported is a chain of references whose last name stands in it
before, or which has more names than aliases may be deep. -/
theorem build_circles (definitions : List (String × String))
    (meaning : String → Selector) :
    ((∃ table, AliasTable.build definitions = .ok table) ∨
        (∃ chain, AliasTable.build definitions = .error (.aliasCycle chain)) ∨
        ∃ failure name expansion, AliasTable.build definitions = .error failure ∧
          expansion? definitions name = some expansion ∧
          ¬ Parses definitions meaning expansion) ∧
      (∀ name, Relation.TransGen (References (expansion? definitions)) name name →
        (∀ table, AliasTable.build definitions ≠ .ok table) ∧
          ((∀ other expansion, expansion? definitions other = some expansion →
              Parses definitions meaning expansion) →
            ∃ chain, AliasTable.build definitions = .error (.aliasCycle chain))) ∧
      ∀ chain, AliasTable.build definitions = .error (.aliasCycle chain) →
        chain.IsChain (References (expansion? definitions)) ∧
          ((∃ last ∈ chain.dropLast, chain.getLast? = some last) ∨
            16 < chain.length) := by
  cases built : AliasTable.build definitions with
  | ok table =>
      have finished := finished_of_build built
      exact ⟨.inl ⟨table, rfl⟩, fun name leads => absurd leads finished.acyclic, nofun⟩
  | error failure =>
      rcases build_error meaning built with
        ⟨chain, rfl, circles⟩ | ⟨own, name, expansion, defined, unreadable⟩
      · refine ⟨.inr (.inl ⟨chain, rfl⟩), fun _ _ => ⟨nofun, fun _ => ⟨chain, rfl⟩⟩, ?_⟩
        rintro _ ⟨⟩
        exact ⟨circles.linked, circles.returns⟩
      · refine ⟨.inr (.inr ⟨failure, name, expansion, rfl, defined, unreadable⟩), ?_, ?_⟩
        · exact fun _ _ => ⟨nofun, fun parse => absurd (parse name expansion defined)
            unreadable⟩
        · rintro chain ⟨⟩
          exact absurd ⟨chain, rfl⟩ own

/-- Two aliases that refer to each other, and one that refers to the first of them. -/
def mutualDefinitions : List (String × String) :=
  [("start", ":there b"), ("there", "i:back"), ("back", "u:not(:there)")]

/-- The chain starts where the first definition does, which is not part of the circle. -/
theorem build_circles_mutual :
    (∀ table, build mutualDefinitions ≠ .ok table) ∧
      build mutualDefinitions =
        .error (.aliasCycle ["start", "there", "back", "there"]) ∧
      ["start", "there", "back", "there"].IsChain
        (References (expansion? mutualDefinitions)) := by
  have there : References (expansion? mutualDefinitions) "there" "back" :=
    ⟨"i:back", by decide, by decide +kernel, by decide⟩
  have back : References (expansion? mutualDefinitions) "back" "there" :=
    ⟨"u:not(:there)", by decide, by decide +kernel, by decide⟩
  have resolved : ∀ definition ∈ mutualDefinitions,
      Parses mutualDefinitions (fun _ => []) definition.2 := by
    decide +kernel
  have built : build mutualDefinitions =
      .error (.aliasCycle ["start", "there", "back", "there"]) := by
    decide +kernel
  obtain ⟨-, circular, reported⟩ := build_circles mutualDefinitions fun _ => []
  obtain ⟨rejects, fails⟩ := circular "there" (.tail (.single there) back)
  obtain ⟨chain, failed⟩ := fails fun name expansion defined =>
    resolved (name, expansion) (mem_of_expansion? defined)
  cases built.symm.trans failed
  exact ⟨rejects, failed, (reported _ failed).1⟩

end AliasTable

end TreeSelectors
