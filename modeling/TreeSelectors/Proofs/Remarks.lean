import TreeSelectors.Proofs.Selector.Failures
import TreeSelectors.Proofs.Warnings

/-!
# What is remarked on

A text that is parsed leaves one remark for each pseudo-class and pseudo-element in it
that nothing can match, wherever it stands and however it is spelt.  The selectors that
aliases stand for leave none.  So compiling a text warns of exactly what is written in
it, and compiling it again warns of nothing.
-/

namespace TreeSelectors

open Grammar Token

namespace Remark

/-- The pseudo-classes for what a user does. -/
def userActions : List String :=
  ["visited", "hover", "active", "focus", "focus-within", "focus-visible", "target"]

/-- The pseudo-elements that may be written with a single colon. -/
def legacyElements : List String :=
  ["before", "after", "first-line", "first-letter"]

/-- The tokens hold what is remarked on: a pseudo-class for what a user does, behind a
colon; or a pseudo-element behind two colons, or behind one if that is allowed. -/
def Written (tokens : List Token) : Remark → Prop
  | .inert name => (1, name) ∈ prefixed tokens ∧ name ∈ userActions
  | .pseudoElement name =>
      (2, name) ∈ prefixed tokens ∨ (1, name) ∈ prefixed tokens ∧ name ∈ legacyElements

private theorem name_mem_userActions {plain : PlainClass}
    (acts : plain.isUserAction = true) :
    plain.name ∈ userActions := by
  cases plain <;> first | exact absurd acts (by decide) | decide

theorem any_isUserAction_iff {name : String} :
    (PlainClass.ofName? name).any PlainClass.isUserAction = true ↔
      name ∈ userActions := by
  constructor
  · intro acts
    obtain ⟨plain, found, acts⟩ := (Option.any_eq_true _ _).mp acts
    have named : plain.name = name := by simpa using List.find?_some found
    exact named ▸ name_mem_userActions acts
  · intro member
    simp only [userActions, List.mem_cons, List.not_mem_nil, or_false] at member
    rcases member with rfl | rfl | rfl | rfl | rfl | rfl | rfl <;> decide

theorem isLegacyPseudoElement_iff {name : String} :
    Selector.Parser.isLegacyPseudoElement name = true ↔ name ∈ legacyElements := by
  simp [Selector.Parser.isLegacyPseudoElement, legacyElements]

private theorem not_mem_userActions {name : String} (legacy : name ∈ legacyElements) :
    name ∉ userActions := by
  intro acts
  have notPlain := Selector.Parser.ofName?_of_isLegacy
    (isLegacyPseudoElement_iff.mpr legacy)
  have plain := any_isUserAction_iff.mpr acts
  rw [notPlain] at plain
  cases plain

theorem ofPrefixed?_one_eq_some_iff {name : String} {remark : Remark} :
    ofPrefixed? (1, name) = some remark ↔
      (name ∈ userActions ∧ .inert name = remark) ∨
        (name ∈ legacyElements ∧ .pseudoElement name = remark) := by
  simp only [ofPrefixed?, any_isUserAction_iff, isLegacyPseudoElement_iff]
  split
  · rename_i acts
    have notLegacy : name ∉ legacyElements := fun legacy =>
      not_mem_userActions legacy acts
    simp [acts, notLegacy]
  · rename_i idle
    split
    · rename_i legacy
      simp [idle, legacy]
    · rename_i notLegacy
      simp [idle, notLegacy]

theorem mem_filterMap_ofPrefixed?_iff {tokens : List Token} {remark : Remark} :
    remark ∈ (prefixed tokens).filterMap ofPrefixed? ↔ remark.Written tokens := by
  rw [List.mem_filterMap]
  constructor
  · rintro ⟨⟨colons, name⟩, member, found⟩
    match colons, found with
    | 1, found =>
        obtain ⟨acts, rfl⟩ | ⟨legacy, rfl⟩ := ofPrefixed?_one_eq_some_iff.mp found
        · exact ⟨member, acts⟩
        · exact .inr ⟨member, legacy⟩
    | 2, found =>
        cases found
        exact .inl member
  · cases remark with
    | inert name =>
        rintro ⟨member, acts⟩
        exact ⟨_, member, ofPrefixed?_one_eq_some_iff.mpr (.inl ⟨acts, rfl⟩)⟩
    | pseudoElement name =>
        rintro (member | ⟨member, legacy⟩)
        · exact ⟨_, member, rfl⟩
        · exact ⟨_, member, ofPrefixed?_one_eq_some_iff.mpr (.inr ⟨legacy, rfl⟩)⟩

private theorem eq_of_append_eq {front back name other : String}
    (same : front ++ name ++ back = front ++ other ++ back) : name = other := by
  simpa [← String.toList_inj] using same

theorem head?_append {front : String} {char : Char}
    (starts : front.toList.head? = some char) (name back : String) :
    (front ++ name ++ back).toList.head? = some char := by
  simp [starts]

/-- Different remarks have different messages. -/
theorem message_injective {remark other : Remark} (same : remark.message = other.message) :
    remark = other := by
  -- The first letter tells the two kinds of remarks apart.
  have quote (name : String) : (inert name).message.toList.head? = some '\'' :=
    head?_append (by decide) _ _
  have letter (name : String) : (pseudoElement name).message.toList.head? = some 'p' :=
    head?_append (by decide) _ _
  cases remark with
  | inert name =>
      cases other with
      | inert otherName => rw [eq_of_append_eq same]
      | pseudoElement otherName =>
          have letters := quote name
          rw [same, letter] at letters
          cases letters
  | pseudoElement name =>
      cases other with
      | inert otherName =>
          have letters := letter name
          rw [same, quote] at letters
          cases letters
      | pseudoElement otherName => rw [eq_of_append_eq same]

end Remark

namespace WarningSet

private theorem key_right_injective {component message other : String}
    (same : key component message = key component other) : message = other := by
  simpa [← String.toList_inj] using same

/-- What is remembered of a remark on a selector. -/
def keyOf (remark : Remark) : String :=
  key CompiledSelector.component remark.message

private theorem keyOf_injective {remark other : Remark}
    (same : keyOf remark = keyOf other) :
    remark = other :=
  Remark.message_injective (key_right_injective same)

section

variable {warnings : WarningSet} {known : List Remark}

theorem contains_iff_mem (remembers : warnings.given = known.map keyOf)
    (remark : Remark) :
    warnings.contains CompiledSelector.component remark.message = true ↔
      remark ∈ known := by
  rw [contains_eq_true_iff, remembers, List.mem_map]
  constructor
  · rintro ⟨other, member, same⟩
    rwa [← keyOf_injective same]
  · exact fun member => ⟨remark, member, rfl⟩

/-- Whatever is known, the set remembers every new remark once. -/
theorem exists_warnAll (remembers : warnings.given = known.map keyOf)
    (distinct : known.Nodup) (remarks : List Remark) :
    ∃ notes : List Remark, notes.Nodup ∧
      (∀ remark, remark ∈ notes ↔ remark ∈ known ∨ remark ∈ remarks) ∧
      (warnings.warnAll CompiledSelector.component
        (remarks.map Remark.message)).1.given = notes.map keyOf := by
  induction remarks generalizing warnings known with
  | nil => exact ⟨known, distinct, by simp, remembers⟩
  | cons remark rest induction =>
      rw [List.map_cons, warnAll]
      by_cases given : remark ∈ known
      · have contained := (contains_iff_mem remembers remark).mpr given
        obtain ⟨notes, nodup, members, same⟩ := induction remembers distinct
        refine ⟨notes, nodup, fun other => ?_, ?_⟩
        · rw [members, List.mem_cons]
          constructor
          · exact Or.imp_right .inr
          · rintro (member | rfl | later)
            · exact .inl member
            · exact .inl given
            · exact .inr later
        · simpa only [warn, contained, if_true] using same
      · have fresh : ¬ warnings.contains CompiledSelector.component remark.message =
            true := mt (contains_iff_mem remembers remark).mp given
        have next : (warnings.warn CompiledSelector.component remark.message).1.given =
            (remark :: known).map keyOf := by
          rw [warn, if_neg fresh, List.map_cons, ← remembers]
          rfl
        obtain ⟨notes, nodup, members, same⟩ :=
          induction next (List.nodup_cons.mpr ⟨given, distinct⟩)
        refine ⟨notes, nodup, fun other => ?_, same⟩
        rw [members, List.mem_cons, List.mem_cons, or_assoc, or_left_comm]

/-- What was remarked on already is not warned of again. -/
theorem warnAll_of_known (remembers : warnings.given = known.map keyOf)
    {remarks : List Remark} (among : ∀ remark ∈ remarks, remark ∈ known) :
    warnings.warnAll CompiledSelector.component (remarks.map Remark.message) =
      (warnings, []) := by
  induction remarks with
  | nil => rfl
  | cons remark rest induction =>
      obtain ⟨given, among⟩ := List.forall_mem_cons.mp among
      have contained := (contains_iff_mem remembers remark).mpr given
      rw [List.map_cons, warnAll, warn, if_pos contained]
      dsimp only
      rw [induction among]
      rfl

end

end WarningSet

/-! ## Remarks of parsing -/

namespace Selector

variable {table : AliasTable} {limits : CompileLimits} {text : String}
  {selector : Selector}

/-- The remarks on a parsed text are those that its tokens deserve. -/
theorem parseWith_remarks
    (parsed : (Selector.parseWith (.ok table) limits text).1 = .ok selector) :
    (Selector.parseWith (.ok table) limits text).2 =
      (prefixed (Token.scan text)).filterMap Remark.ofPrefixed? := by
  obtain ⟨cut, body, scanned, goesOn⟩ := exists_break text
  have outcomes := Parser.readAll_outcomes (table.source_unlocated limits.maxAliasDepth)
    cut limits.maxNesting goesOn ⟨(), []⟩
  rw [← scanned] at outcomes
  generalize (Parser.readAll (table.source limits.maxAliasDepth) limits.maxNesting
    (body ++ cut.bad :: cut.more)).ends ⟨(), []⟩ = second at outcomes
  simp only [Selector.parseWith, Selector.read, EStateM.run] at parsed ⊢
  rw [Reading.ends] at outcomes
  generalize Parser.readAll (table.source limits.maxAliasDepth) limits.maxNesting
    (Token.scan text) ⟨(), []⟩ = answer at parsed outcomes ⊢
  cases answer with
  | error failure progress => cases parsed
  | ok found progress =>
      cases outcomes with
      | read impossible => exact impossible.elim
      | arrived passes =>
          obtain ⟨notes, deserves, made⟩ := passes.remarks
          have ended : Deserves [cut.stop] [] := .single (by simp)
          have whole := (deserves.append ended).eq
          rw [List.append_nil, ← scanned] at whole
          exact made.trans whole

end Selector

/-! ## Warnings of compiling -/

namespace CompiledSelector

variable {text : String} {limits : CompileLimits} {maxDepth : Nat}
  {compiled : CompiledSelector}

theorem compile_remarks
    (accepted : (compile text limits maxDepth).1 = .ok compiled) :
    (compile text limits maxDepth).2 =
      (prefixed (Token.scan text)).filterMap Remark.ofPrefixed? := by
  obtain ⟨table, isTable, -⟩ := Alias.exists_table
  simp only [compile, Selector.parse, isTable] at accepted ⊢
  cases parsed : (Selector.parseWith (.ok table) limits text).1 with
  | error failure =>
      rw [parsed] at accepted
      cases accepted
  | ok selector => exact Selector.parseWith_remarks parsed

/-- If a text is compiled, then the warnings given are one for each remark that is written
in it, and no others, whatever the definitions of its aliases hold; all texts that clash
in what is remembered of them are the same remark.  If the text is compiled again, within
any limits that let it through, then nothing is warned of, and the warnings given stay. -/
theorem compileWarning_given
    (accepted : (compileWarning .empty text limits maxDepth).1 = .ok compiled) :
    (∃ notes : List Remark, notes.Nodup ∧
      (∀ remark, remark ∈ notes ↔ remark.Written (Token.scan text)) ∧
      (compileWarning .empty text limits maxDepth).2.1.given =
        notes.map fun remark => WarningSet.key component remark.message) ∧
      (∀ remark other : Remark, WarningSet.key component remark.message =
        WarningSet.key component other.message → remark = other) ∧
      ∀ (others : CompileLimits) (depth : Nat) (again : CompiledSelector),
        (compile text others depth).1 = .ok again →
        (compileWarning (compileWarning .empty text limits maxDepth).2.1 text others
          depth).2 = ((compileWarning .empty text limits maxDepth).2.1, []) := by
  have remarked := compile_remarks accepted
  obtain ⟨notes, nodup, members, given⟩ := @WarningSet.exists_warnAll .empty [] rfl
    List.nodup_nil (compile text limits maxDepth).2
  refine ⟨⟨notes, nodup, fun remark => ?_, given⟩, fun _ _ => WarningSet.keyOf_injective,
    fun others depth again acceptedAgain => ?_⟩
  · rw [members, or_iff_right List.not_mem_nil, remarked,
      Remark.mem_filterMap_ofPrefixed?_iff]
  · refine WarningSet.warnAll_of_known given fun remark member => ?_
    rw [members, remarked]
    rw [compile_remarks acceptedAgain] at member
    exact .inr member

/-- The definition of `:link` holds `:visited`, which is not warned of. -/
theorem compileWarning_given_link :
    ∃ compiled, (compileWarning .empty ":is(:link:HOVER, p::Foo)" {} 8).1 =
        .ok compiled ∧
      ∃ notes : List Remark,
        (compileWarning .empty ":is(:link:HOVER, p::Foo)" {} 8).2.1.given =
          notes.map (fun remark => WarningSet.key component remark.message) ∧
        .inert "hover" ∈ notes ∧ .pseudoElement "foo" ∈ notes ∧
        .inert "visited" ∉ notes := by
  have isOk : (compileWarning .empty ":is(:link:HOVER, p::Foo)" {} 8).1.isOk = true := by
    decide +kernel
  cases accepted : (compileWarning .empty ":is(:link:HOVER, p::Foo)" {} 8).1 with
  | error failure => rw [accepted] at isOk; cases isOk
  | ok compiled =>
      obtain ⟨⟨notes, -, members, given⟩, -⟩ := compileWarning_given accepted
      have names : prefixed (Token.scan ":is(:link:HOVER, p::Foo)") =
          [(1, "link"), (1, "hover"), (0, "p"), (2, "foo")] := by
        decide +kernel
      refine ⟨compiled, rfl, notes, given, (members _).mpr ?_, (members _).mpr ?_,
        mt (members _).mp ?_⟩
      · simp [Remark.Written, names, Remark.userActions]
      · simp [Remark.Written, names]
      · simp [Remark.Written, names]

end CompiledSelector

end TreeSelectors
