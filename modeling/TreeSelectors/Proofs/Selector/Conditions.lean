import TreeSelectors.Proofs.Selector.Terms
import TreeSelectors.Text.Ascii

/-!
# Reading conditions

The readers of conditions and compounds follow the grammar, if the reader of
arguments does.
-/

namespace TreeSelectors

namespace Grammar

theorem Pseudo.ne_nil {σ : Type} {setting : Setting σ} {known later : σ}
    {segment : List Token} {simple : Simple}
    (derived : Pseudo setting known segment simple later) : segment ≠ [] := by
  cases derived <;> simp

end Grammar

namespace Selector.Parser

open Grammar Reading

variable {σ : Type} {context : Context σ} {setting : Setting σ}
  {remarks : List Remark} {known later : σ}

/-- A context reads what a setting derives. -/
structure Context.Reads (context : Context σ) (setting : Setting σ) : Prop where
  aliases : context.aliases = setting.aliases
  argument_ne_nil {relative : Bool} {known later : σ} {segment : List Token}
    {selector : Selector} :
    setting.argument relative known segment selector later → segment ≠ []
  argument {opening : Nat} {relative : Bool} {tokens rest : List Token}
    {fewer : rest.length < tokens.length} {remarks : List Remark}
    {known later : σ} {selector : Selector} :
    Yields (context.argument opening relative tokens) remarks known
        (selector, ⟨rest, fewer⟩) later ↔
      ∃ segment, tokens = segment ++ rest ∧
        setting.argument relative known segment selector later

private theorem pseudoElement_yields_iff {name : String} {simple : Simple} :
    Yields (pseudoElement name : Reading σ Simple) remarks known simple later ↔
      simple = .pseudoElement (Text.foldCase name) ∧ known = later := by
  rw [pseudoElement, yields_remark_bind_iff, eq_comm]

theorem ofName?_of_isLegacy {name : String}
    (legacy : isLegacyPseudoElement name = true) :
    PlainClass.ofName? name = none := by
  simp only [isLegacyPseudoElement, List.mem_cons, List.not_mem_nil, or_false,
    decide_eq_true_eq] at legacy
  rcases legacy with rfl | rfl | rfl | rfl <;> decide

theorem selectorFunction_of_counting {name : String} {counting : Counting}
    (counts : Counting.ofName? name = some counting) :
    SelectorFunction.ofName? name = none := by
  have named := List.find?_some counts
  have named : counting.name = name := of_decide_eq_true named
  subst named
  cases counting <;> decide

private theorem plain_yields_iff {plain : PlainClass} {name : String} {simple : Simple} :
    Yields (do
        if plain.isUserAction then
          Reading.remark (.inert name)
        return .plain plain : Reading σ Simple) remarks known simple later ↔
      simple = .plain plain ∧ known = later := by
  dsimp only
  split
  · rw [yields_remark_bind_iff, eq_comm]
  · rw [yields_pure_iff, eq_comm]

/-- What a name after a colon can stand for. -/
theorem pseudo_ident_cases {token : Token} {name : String}
    (kind : token.kind = .ident name) {simple : Simple}
    (derived : Pseudo setting known [token] simple later) :
    (isLegacyPseudoElement (Text.foldCase name) = true ∧
      simple = .pseudoElement (Text.foldCase name) ∧ known = later) ∨
    (∃ plain, PlainClass.ofName? (Text.foldCase name) = some plain ∧
      simple = .plain plain ∧ known = later) ∨
    (PlainClass.ofName? (Text.foldCase name) = none ∧
      isLegacyPseudoElement (Text.foldCase name) = false ∧
      SelectorFunction.ofName? (Text.foldCase name) = none ∧
      Counting.ofName? (Text.foldCase name) = none ∧
      ∃ selector, (setting.aliases.expand (Text.foldCase name)).run known =
        .ok (some selector, later) ∧ simple = .functional .is selector) := by
  cases derived with
  | legacyElement own legacy =>
      cases kind.symm.trans own
      exact Or.inl ⟨legacy, rfl, rfl⟩
  | plain own named =>
      cases kind.symm.trans own
      exact Or.inr (Or.inl ⟨_, named, rfl, rfl⟩)
  | abbreviation own notPlain notLegacy notFunction notCounting expanded =>
      cases kind.symm.trans own
      exact Or.inr (Or.inr ⟨notPlain, notLegacy, notFunction, notCounting, _,
        expanded, rfl⟩)
  | nth own => cases kind.symm.trans own
  | functional own => cases kind.symm.trans own

private theorem pseudoClass_sound (reads : context.Reads setting) {token : Token}
    {name : String} (kind : token.kind = .ident name) {simple : Simple}
    (answered : Yields (pseudoClass context name) remarks known simple later) :
    Pseudo setting known [token] simple later := by
  simp only [pseudoClass] at answered
  split at answered
  · rename_i plain named
    obtain ⟨rfl, rfl⟩ := plain_yields_iff.mp answered
    exact .plain kind named
  · rename_i notPlain
    split at answered
    · rename_i legacy
      obtain ⟨rfl, rfl⟩ := pseudoElement_yields_iff.mp answered
      rw [Text.foldCase_foldCase]
      exact .legacyElement kind legacy
    · rename_i notLegacy
      split at answered
      · exact absurd answered not_yields_throw
      · rename_i functional
        simp only [Bool.or_eq_true, not_or, Bool.not_eq_true,
          Option.isSome_eq_false_iff, Option.isNone_iff_eq_none] at functional
        obtain ⟨found, between, others, answered, rest⟩ := answered.exists_first
        have expanded := yields_expand_iff.mp answered
        cases found with
        | none => exact absurd rest not_yields_throw
        | some selector =>
            obtain ⟨rfl, rfl⟩ := yields_pure_iff.mp rest
            rw [reads.aliases] at expanded
            exact .abbreviation kind notPlain (Bool.eq_false_iff.mpr notLegacy)
              functional.1 functional.2 expanded

private theorem pseudoClass_complete (reads : context.Reads setting) {token : Token}
    {name : String} (kind : token.kind = .ident name) {simple : Simple}
    (derived : Pseudo setting known [token] simple later) :
    Yields (pseudoClass context name) remarks known simple later := by
  simp only [pseudoClass]
  obtain ⟨legacy, rfl, rfl⟩ | ⟨plain, named, rfl, rfl⟩ |
      ⟨notPlain, notLegacy, notFunction, notCounting, selector, expanded, rfl⟩ :=
    pseudo_ident_cases kind derived
  · simp only [ofName?_of_isLegacy legacy, legacy, if_true]
    rw [pseudoElement_yields_iff, Text.foldCase_foldCase]
    exact ⟨rfl, rfl⟩
  · simp only [named]
    exact plain_yields_iff.mpr ⟨rfl, rfl⟩
  · rw [← reads.aliases] at expanded
    simp only [notPlain, notLegacy, notFunction, notCounting, Option.isSome_none,
      Bool.or_self, Bool.false_eq_true, if_false]
    exact (yields_expand_iff.mpr expanded).bind fun _ =>
      yields_pure_iff.mpr ⟨rfl, rfl⟩

/-- What a function after a colon can stand for. -/
theorem pseudo_function_cases {token : Token} {name : String}
    (kind : token.kind = .function name) {segment : List Token} {simple : Simple}
    (derived : Pseudo setting known (token :: segment) simple later) :
    (∃ counting formula, Counting.ofName? (Text.foldCase name) = some counting ∧
      Formula segment formula ∧ simple = .nth counting formula ∧ known = later) ∨
    (∃ function selector,
      SelectorFunction.ofName? (Text.foldCase name) = some function ∧
      setting.argument (function = .has) known segment selector later ∧
      simple = .functional function selector) := by
  cases derived with
  | element colon => cases kind.symm.trans colon
  | legacyElement own => cases kind.symm.trans own
  | plain own => cases kind.symm.trans own
  | abbreviation own => cases kind.symm.trans own
  | nth own named formula =>
      cases kind.symm.trans own
      exact Or.inl ⟨_, _, named, formula, rfl, rfl⟩
  | functional own named argument =>
      cases kind.symm.trans own
      exact Or.inr ⟨_, _, named, argument, rfl⟩

private theorem function_segment_ne_nil (reads : context.Reads setting) {token : Token}
    {name : String} (kind : token.kind = .function name) {segment : List Token}
    {simple : Simple}
    (derived : Pseudo setting known (token :: segment) simple later) :
    segment ≠ [] := by
  rcases pseudo_function_cases kind derived with
    ⟨counting, formula, -, formed, -⟩ | ⟨function, selector, -, argument, -⟩
  · cases formed
    simp
  · exact reads.argument_ne_nil argument

private theorem pseudoFunction_sound (reads : context.Reads setting) {token : Token}
    {name : String} (kind : token.kind = .function name) {opening : Nat}
    {tokens rest : List Token} {fewer : rest.length < tokens.length}
    {simple : Simple}
    (answered : Yields (pseudoFunction context name opening tokens) remarks known
      (simple, ⟨rest, fewer⟩) later) :
    ∃ segment, tokens = segment ++ rest ∧
      Pseudo setting known (token :: segment) simple later := by
  simp only [pseudoFunction] at answered
  split at answered
  · rename_i function named
    obtain ⟨⟨selector, after, _⟩, between, others, read, result⟩ :=
      answered.exists_first
    obtain ⟨segment, rfl, argument⟩ := reads.argument.mp read
    obtain ⟨⟨rfl, rfl⟩, rfl⟩ := yields_pair_iff.mp result
    exact ⟨segment, rfl, .functional kind named argument⟩
  · split at answered
    · rename_i counting counts
      obtain ⟨⟨formula, after, _⟩, others, read, result⟩ :=
        answered.of_ofExcept_bind
      obtain ⟨segment, rfl, formed⟩ := readFormula_iff.mp read
      obtain ⟨⟨rfl, rfl⟩, rfl⟩ := yields_pair_iff.mp result
      exact ⟨segment, rfl, .nth kind counts formed⟩
    · split at answered
      · exact absurd answered not_yields_throw
      · exact absurd answered not_yields_throw

private theorem pseudoFunction_complete (reads : context.Reads setting) {token : Token}
    {name : String} (kind : token.kind = .function name) {opening : Nat}
    {segment rest : List Token} {simple : Simple}
    (derived : Pseudo setting known (token :: segment) simple later) :
    Yields (pseudoFunction context name opening (segment ++ rest)) remarks known
      (simple, ⟨rest, length_lt_of_ne_nil
        (function_segment_ne_nil reads kind derived)⟩) later := by
  have nonempty := function_segment_ne_nil reads kind derived
  simp only [pseudoFunction]
  obtain ⟨counting, formula, counts, formed, rfl, rfl⟩ |
      ⟨function, selector, named, argument, rfl⟩ :=
    pseudo_function_cases kind derived
  · simp only [selectorFunction_of_counting counts, counts]
    have read : readFormula context.opened opening (segment ++ rest) =
        .ok (formula, ⟨rest, length_lt_of_ne_nil nonempty⟩) :=
      readFormula_iff.mpr ⟨segment, rfl, formed⟩
    exact yields_ofExcept_bind read fun _ => yields_pure_iff.mpr ⟨rfl, rfl⟩
  · simp only [named]
    have read {remarks : List Remark} :
        Yields (context.argument opening (function = .has) (segment ++ rest)) remarks
          known (selector, ⟨rest, length_lt_of_ne_nil nonempty⟩) later :=
      reads.argument.mpr ⟨segment, rfl, argument⟩
    exact read.bind fun _ => yields_pure_iff.mpr ⟨rfl, rfl⟩

theorem readPseudo_sound (reads : context.Reads setting)
    {tokens rest : List Token} {fewer : rest.length < tokens.length}
    {simple : Simple}
    (answered : Yields (readPseudo context tokens) remarks known
      (simple, ⟨rest, fewer⟩) later) :
    ∃ segment, tokens = segment ++ rest ∧
      Pseudo setting known segment simple later := by
  cases tokens with
  | nil => cases fewer
  | cons token others =>
      simp only [readPseudo] at answered
      split at answered
      · rename_i colon
        split at answered
        · rename_i name after _ found
          obtain ⟨named, rfl, kind⟩ := readIdent?_eq_some_iff.mp found
          obtain ⟨result, between, _, element, rest⟩ := answered.exists_first
          obtain ⟨rfl, rfl⟩ := pseudoElement_yields_iff.mp element
          obtain ⟨⟨rfl, rfl⟩, rfl⟩ := yields_pair_iff.mp rest
          exact ⟨[token, named], rfl, .element colon kind⟩
        · exact absurd answered not_yields_throw
      · rename_i name kind
        obtain ⟨result, between, _, found, rest⟩ := answered.exists_first
        have derived := pseudoClass_sound reads kind found
        obtain ⟨⟨rfl, rfl⟩, rfl⟩ := yields_pair_iff.mp rest
        exact ⟨[token], rfl, derived⟩
      · rename_i name kind
        obtain ⟨⟨result, after, _⟩, between, _, found, rest⟩ :=
          answered.exists_first
        obtain ⟨segment, rfl, derived⟩ := pseudoFunction_sound reads kind found
        obtain ⟨⟨rfl, rfl⟩, rfl⟩ := yields_pair_iff.mp rest
        exact ⟨token :: segment, rfl, derived⟩
      · exact absurd answered not_yields_throw

private theorem readPseudo_ident (reads : context.Reads setting) {token : Token}
    {name : String} (kind : token.kind = .ident name) {rest : List Token}
    {simple : Simple} (derived : Pseudo setting known [token] simple later) :
    Yields (readPseudo context (token :: rest)) remarks known
      (simple, ⟨rest, Nat.lt_succ_self _⟩) later := by
  simp only [readPseudo, kind]
  exact (pseudoClass_complete reads kind derived).bind fun _ =>
    yields_pure_iff.mpr ⟨rfl, rfl⟩

private theorem readPseudo_function (reads : context.Reads setting) {token : Token}
    {name : String} (kind : token.kind = .function name)
    {segment rest : List Token} {simple : Simple}
    (derived : Pseudo setting known (token :: segment) simple later) :
    Yields (readPseudo context (token :: segment ++ rest)) remarks known
      (simple, ⟨rest, length_lt_of_ne_nil derived.ne_nil⟩) later := by
  simp only [readPseudo, List.cons_append, kind]
  exact (pseudoFunction_complete reads kind derived).bind fun _ =>
    yields_pure_iff.mpr ⟨rfl, rfl⟩

theorem readPseudo_complete (reads : context.Reads setting)
    {segment rest : List Token} {simple : Simple}
    (derived : Pseudo setting known segment simple later) :
    Yields (readPseudo context (segment ++ rest)) remarks known
      (simple, ⟨rest, length_lt_of_ne_nil derived.ne_nil⟩) later := by
  cases derived with
  | element colon own =>
      rename_i token named name
      have found : readIdent? (named :: rest) =
          some (name, ⟨rest, Nat.lt_succ_self _⟩) :=
        readIdent?_eq_some_iff.mpr ⟨named, rfl, own⟩
      simp only [readPseudo, List.cons_append, List.nil_append, colon, found]
      exact (pseudoElement_yields_iff.mpr ⟨rfl, rfl⟩).bind fun _ =>
        yields_pure_iff.mpr ⟨rfl, rfl⟩
  | legacyElement own legacy =>
      exact readPseudo_ident reads own (.legacyElement own legacy)
  | plain own named => exact readPseudo_ident reads own (.plain own named)
  | abbreviation own notPlain notLegacy notFunction notCounting expanded =>
      exact readPseudo_ident reads own
        (.abbreviation own notPlain notLegacy notFunction notCounting expanded)
  | nth own counts formed =>
      exact readPseudo_function reads own (.nth own counts formed)
  | functional own named argument =>
      exact readPseudo_function reads own (.functional own named argument)

end Selector.Parser

end TreeSelectors
