import TreeSelectors.Proofs.Answer
import TreeSelectors.Proofs.Selector.Reading

/-!
# Reading attribute tests and formulas

The readers of what stands between brackets, and of what stands in the
parentheses of a positional pseudo-class, follow the grammar.
-/

namespace TreeSelectors

namespace Selector.Parser

open Grammar

variable {failure : List Token → ParseError} {tokens : List Token}

private theorem readOperator_iff {operator : AttributeOperator} {rest : List Token}
    {fewer : rest.length < tokens.length} :
    readOperator failure tokens = .ok (operator, ⟨rest, fewer⟩) ↔
      ∃ sign, tokens = sign ++ rest ∧ Operator sign operator := by
  constructor
  · intro answered
    cases tokens with
    | nil => cases answered
    | cons token others =>
        simp only [readOperator] at answered
        split at answered
        · rename_i kind
          cases answered
          exact ⟨[token], rfl, .equals kind⟩
        · rename_i char _ kind
          split at answered
          · cases answered
          · rename_i found known
            split at answered
            · rename_i after _ accepted
              cases answered
              obtain ⟨equals, rfl, equalsKind⟩ := accept?_eq_some_iff.mp accepted
              exact ⟨[token, equals], rfl, .signed kind known equalsKind⟩
            · cases answered
        · cases answered
  · intro derivation
    obtain ⟨sign, rfl, derived⟩ := derivation
    cases derived with
    | @equals token kind => simp [readOperator, kind]
    | @signed sign equals char _ kind known equalsKind =>
        have accepted : accept? (.delim '=') (equals :: rest) =
            some ⟨rest, Nat.lt_succ_self _⟩ :=
          accept?_eq_some_iff.mpr ⟨equals, rfl, equalsKind⟩
        have different : char ≠ '=' := by
          rintro rfl
          cases known
        simp [readOperator, kind, known, accepted]

private theorem readValue_iff {value : String} {rest : List Token}
    {fewer : rest.length < tokens.length} :
    readValue failure tokens = .ok (value, ⟨rest, fewer⟩) ↔
      ∃ token, tokens = token :: rest ∧
        (token.kind = .ident value ∨ token.kind = .string value) := by
  constructor
  · intro answered
    cases tokens with
    | nil => cases answered
    | cons token others =>
        simp only [readValue] at answered
        split at answered
        · rename_i kind
          cases answered
          exact ⟨token, rfl, Or.inl kind⟩
        · rename_i kind
          cases answered
          exact ⟨token, rfl, Or.inr kind⟩
        · cases answered
  · intro found
    obtain ⟨token, rfl, kind | kind⟩ := found
    · simp [readValue, kind]
    · simp [readValue, kind]

private theorem readFlag_sound {flag : CaseFlag} {rest : List Token}
    {noMore : rest.length ≤ tokens.length}
    (answered : readFlag tokens = (flag, ⟨rest, noMore⟩)) :
    ∃ flags, tokens = flags ++ rest ∧ Flag flags flag := by
  unfold readFlag at answered
  split at answered
  · rename_i name after fewer found
    obtain ⟨token, rfl, kind⟩ := readIdent?_eq_some_iff.mp found
    simp only at answered
    split at answered
    · rename_i insensitive
      simp only [Prod.mk.injEq, Subtype.mk.injEq] at answered
      obtain ⟨rfl, skipped⟩ := answered
      obtain ⟨blank, isBlank, rfl, -⟩ := skipBlank_val_iff.mp skipped
      exact ⟨token :: blank, rfl, .insensitive kind insensitive isBlank⟩
    · split at answered
      · rename_i sensitive
        simp only [Prod.mk.injEq, Subtype.mk.injEq] at answered
        obtain ⟨rfl, skipped⟩ := answered
        obtain ⟨blank, isBlank, rfl, -⟩ := skipBlank_val_iff.mp skipped
        exact ⟨token :: blank, rfl, .sensitive kind sensitive isBlank⟩
      · simp only [Prod.mk.injEq, Subtype.mk.injEq] at answered
        obtain ⟨rfl, same⟩ := answered
        exact ⟨[], same, .unstated⟩
  · simp only [Prod.mk.injEq, Subtype.mk.injEq] at answered
    obtain ⟨rfl, same⟩ := answered
    exact ⟨[], same, .unstated⟩

/-- A closing bracket is neither a flag nor white space. -/
theorem readFlag_complete {flag : CaseFlag} {flags rest : List Token} {close : Token}
    {noMore : (close :: rest).length ≤ tokens.length}
    (split : tokens = flags ++ close :: rest) (derived : Flag flags flag)
    (closes : close.kind = .rightBracket) :
    readFlag tokens = (flag, ⟨close :: rest, noMore⟩) := by
  subst split
  have stops : Token.peek (close :: rest) ≠ .whitespace := by
    simp [Token.peek, closes]
  cases derived with
  | unstated =>
      have absent : readIdent? (close :: rest) = none := by
        simp [readIdent?_eq_none_iff, closes]
      simp [readFlag, absent]
  | @insensitive token name blank kind insensitive isBlank =>
      have skipped : (skipBlank (blank ++ close :: rest)).val = close :: rest :=
        skipBlank_val_iff.mpr ⟨blank, isBlank, rfl, stops⟩
      simp [readFlag, readIdent?, kind, insensitive, skipped]
  | @sensitive token name blank kind sensitive isBlank =>
      have skipped : (skipBlank (blank ++ close :: rest)).val = close :: rest :=
        skipBlank_val_iff.mpr ⟨blank, isBlank, rfl, stops⟩
      have different : Text.sameFolded name "i" = false := by
        simp only [Text.sameFolded, decide_eq_true_eq] at sensitive
        simp only [Text.sameFolded, sensitive]
        decide
      simp [readFlag, readIdent?, kind, sensitive, different, skipped]

private theorem readComparison_sound {name : String} {test : AttributeTest}
    {rest : List Token} {fewer : rest.length < tokens.length}
    (answered : readComparison failure name tokens = .ok (test, ⟨rest, fewer⟩)) :
    ∃ comparison close, tokens = comparison ++ close :: rest ∧
      Comparison name comparison test ∧ close.kind = .rightBracket := by
  simp only [readComparison, bind_eq_ok] at answered
  obtain ⟨⟨operator, afterOperator, _⟩, operatorRead, answered⟩ := answered
  obtain ⟨⟨value, afterValue, _⟩, valueRead, answered⟩ := answered
  obtain ⟨sign, rfl, operatorDerived⟩ := readOperator_iff.mp operatorRead
  obtain ⟨token, beforeValue, valueDerived⟩ := readValue_iff.mp valueRead
  obtain ⟨first, firstBlank, rfl, -⟩ := skipBlank_val_iff.mp beforeValue
  generalize beforeFlag : skipBlank afterValue = flagStart at answered
  obtain ⟨flagStart, _⟩ := flagStart
  obtain ⟨second, secondBlank, rfl, -⟩ :=
    skipBlank_eq_iff.mp beforeFlag
  generalize flagRead : readFlag flagStart = flag at answered
  obtain ⟨case, afterFlag, _⟩ := flag
  split at answered
  · rename_i accepted
    simp only [pure_eq_ok, Prod.mk.injEq, Subtype.mk.injEq] at answered
    obtain ⟨rfl, rfl⟩ := answered
    obtain ⟨close, rfl, closes⟩ := accept?_eq_some_iff.mp accepted
    obtain ⟨flags, rfl, flagDerived⟩ := readFlag_sound flagRead
    refine ⟨sign ++ first ++ token :: second ++ flags, close, ?_,
      .compare operatorDerived firstBlank valueDerived secondBlank flagDerived,
      closes⟩
    simp
  · simp at answered

private theorem readComparison_complete {name : String} {test : AttributeTest}
    {comparison rest : List Token} {close : Token}
    {fewer : rest.length < (comparison ++ close :: rest).length}
    (derived : Comparison name comparison test)
    (closes : close.kind = .rightBracket) :
    readComparison failure name (comparison ++ close :: rest) =
      .ok (test, ⟨rest, fewer⟩) := by
  cases derived with
  | @compare sign first second flags token operator value case
      operatorDerived firstBlank valueKind secondBlank flagDerived =>
    have beforeValue : (skipBlank (first ++ token :: (second ++ flags ++
        close :: rest))).val = token :: (second ++ flags ++ close :: rest) := by
      refine skipBlank_val_iff.mpr ⟨first, firstBlank, rfl, ?_⟩
      rcases valueKind with kind | kind <;> simp [Token.peek, kind]
    have beforeFlag : (skipBlank (second ++ flags ++ close :: rest)).val =
        flags ++ close :: rest := by
      refine skipBlank_val_iff.mpr ⟨second, secondBlank, by simp, ?_⟩
      cases flagDerived with
      | unstated => simp [Token.peek, closes]
      | insensitive kind _ _ => simp [Token.peek, kind]
      | sensitive kind _ _ => simp [Token.peek, kind]
    have noMore : (close :: rest).length ≤
        (skipBlank (second ++ flags ++ close :: rest)).val.length := by
      simp [beforeFlag]
    have flagRead : readFlag (skipBlank (second ++ flags ++
        close :: rest)).val = (case, ⟨close :: rest, noMore⟩) :=
      readFlag_complete beforeFlag flagDerived closes
    simp only [readComparison, bind_eq_ok]
    refine ⟨(operator, ⟨first ++ token :: (second ++ flags ++ close :: rest), ?_⟩),
      readOperator_iff.mpr ⟨sign, by simp, operatorDerived⟩,
      (value, ⟨second ++ flags ++ close :: rest, ?_⟩),
      readValue_iff.mpr ⟨token, beforeValue, valueKind⟩, ?_⟩
    · cases operatorDerived with
      | equals => simp
      | signed =>
          simp only [List.length_append, List.length_cons]
          omega
    · simp [beforeValue]
    · simp only
      generalize readFlag (skipBlank (second ++ flags ++ close :: rest)).val =
        found at flagRead ⊢
      subst flagRead
      simp [accept?, closes]

private theorem comparison_eq_cons {name : String} {comparison : List Token}
    {test : AttributeTest} (derived : Comparison name comparison test)
    (rest : List Token) :
    ∃ token others, comparison ++ rest = token :: others ∧
      ∃ char, token.kind = .delim char := by
  cases derived with
  | compare operatorDerived _ _ _ _ =>
      cases operatorDerived with
      | equals kind => exact ⟨_, _, rfl, _, kind⟩
      | signed kind _ _ => exact ⟨_, _, rfl, _, kind⟩

private theorem readAttribute_sound {opened : Option Nat} {bracket : Nat}
    {test : AttributeTest} {rest : List Token}
    {fewer : rest.length < tokens.length}
    (answered : readAttribute opened bracket tokens = .ok (test, ⟨rest, fewer⟩)) :
    ∃ segment, tokens = segment ++ rest ∧ Attribute segment test := by
  simp only [readAttribute] at answered
  generalize beforeName : skipBlank tokens = start at answered
  obtain ⟨start, _⟩ := start
  obtain ⟨first, firstBlank, rfl, -⟩ := skipBlank_eq_iff.mp beforeName
  split at answered
  · rename_i name afterName _ found
    obtain ⟨token, rfl, kind⟩ := readIdent?_eq_some_iff.mp found
    generalize beforeOperator : skipBlank afterName = operatorStart at answered
    obtain ⟨operatorStart, _⟩ := operatorStart
    obtain ⟨second, secondBlank, rfl, -⟩ := skipBlank_eq_iff.mp beforeOperator
    split at answered
    · rename_i accepted
      simp only [pure_eq_ok, Prod.mk.injEq, Subtype.mk.injEq] at answered
      obtain ⟨rfl, rfl⟩ := answered
      obtain ⟨close, rfl, closes⟩ := accept?_eq_some_iff.mp accepted
      refine ⟨first ++ token :: second ++ [close], by simp, ?_⟩
      exact .present firstBlank kind secondBlank closes
    · simp only [bind_eq_ok, pure_eq_ok, Prod.mk.injEq, Subtype.mk.injEq]
        at answered
      obtain ⟨⟨test', rest', _⟩, compared, rfl, rfl⟩ := answered
      obtain ⟨comparison, close, rfl, derived, closes⟩ :=
        readComparison_sound compared
      refine ⟨first ++ token :: second ++ comparison ++ [close], by simp, ?_⟩
      exact .comparison firstBlank kind secondBlank derived closes
  · simp at answered

private theorem readAttribute_present {opened : Option Nat} {bracket : Nat}
    {first second rest : List Token} {token close : Token} {name : String}
    {fewer : rest.length < (first ++ token :: second ++ [close] ++ rest).length}
    (firstBlank : Blank first) (kind : token.kind = .ident name)
    (secondBlank : Blank second) (closes : close.kind = .rightBracket) :
    readAttribute opened bracket (first ++ token :: second ++ [close] ++ rest) =
      .ok (.present name, ⟨rest, fewer⟩) := by
  have beforeName : skipBlank (first ++ token :: second ++ [close] ++ rest) =
      ⟨token :: (second ++ close :: rest), by simp⟩ :=
    skipBlank_eq_iff.mpr ⟨first, firstBlank, by simp, by simp [Token.peek, kind]⟩
  have beforeClose : skipBlank (second ++ close :: rest) =
      ⟨close :: rest, by simp⟩ :=
    skipBlank_eq_iff.mpr ⟨second, secondBlank, rfl, by simp [Token.peek, closes]⟩
  have found : readIdent? (token :: (second ++ close :: rest)) =
      some (name, ⟨second ++ close :: rest, Nat.lt_succ_self _⟩) :=
    readIdent?_eq_some_iff.mpr ⟨token, rfl, kind⟩
  have accepted : accept? .rightBracket (close :: rest) =
      some ⟨rest, Nat.lt_succ_self _⟩ :=
    accept?_eq_some_iff.mpr ⟨close, rfl, closes⟩
  unfold readAttribute
  rw [beforeName]
  dsimp only
  rw [found]
  dsimp only
  rw [beforeClose]
  dsimp only
  rw [accepted]
  rfl

private theorem readAttribute_comparison {opened : Option Nat} {bracket : Nat}
    {first second comparison rest : List Token} {token close : Token} {name : String}
    {test : AttributeTest}
    {fewer : rest.length <
      (first ++ token :: second ++ comparison ++ [close] ++ rest).length}
    (firstBlank : Blank first) (kind : token.kind = .ident name)
    (secondBlank : Blank second) (derived : Comparison name comparison test)
    (closes : close.kind = .rightBracket) :
    readAttribute opened bracket
        (first ++ token :: second ++ comparison ++ [close] ++ rest) =
      .ok (test, ⟨rest, fewer⟩) := by
  obtain ⟨sign, others, split, char, signKind⟩ :=
    comparison_eq_cons derived (close :: rest)
  have beforeName : skipBlank
      (first ++ token :: second ++ comparison ++ [close] ++ rest) =
      ⟨token :: (second ++ (comparison ++ close :: rest)), by simp⟩ :=
    skipBlank_eq_iff.mpr ⟨first, firstBlank, by simp, by simp [Token.peek, kind]⟩
  have beforeSign : skipBlank (second ++ (comparison ++ close :: rest)) =
      ⟨comparison ++ close :: rest, by simp⟩ := by
    refine skipBlank_eq_iff.mpr ⟨second, secondBlank, rfl, ?_⟩
    simp [split, Token.peek, signKind]
  have found : readIdent? (token :: (second ++ (comparison ++ close :: rest))) =
      some (name, ⟨second ++ (comparison ++ close :: rest),
        Nat.lt_succ_self _⟩) :=
    readIdent?_eq_some_iff.mpr ⟨token, rfl, kind⟩
  have open' : accept? .rightBracket (comparison ++ close :: rest) = none := by
    simp [accept?_eq_none_iff, split, signKind]
  have compared :
      readComparison (bracketError opened bracket) name
          (comparison ++ close :: rest) =
        .ok (test, ⟨rest, by simp; omega⟩) :=
    readComparison_complete derived closes
  unfold readAttribute
  rw [beforeName]
  dsimp only
  rw [found]
  dsimp only
  rw [beforeSign]
  dsimp only
  rw [open', compared]
  rfl

theorem readAttribute_iff {opened : Option Nat} {bracket : Nat}
    {test : AttributeTest} {rest : List Token}
    {fewer : rest.length < tokens.length} :
    readAttribute opened bracket tokens = .ok (test, ⟨rest, fewer⟩) ↔
      ∃ segment, tokens = segment ++ rest ∧ Attribute segment test := by
  constructor
  · exact readAttribute_sound
  · intro derivation
    obtain ⟨segment, rfl, derived⟩ := derivation
    cases derived with
    | present firstBlank kind secondBlank closes =>
        exact readAttribute_present firstBlank kind secondBlank closes
    | comparison firstBlank kind secondBlank derived closes =>
        exact readAttribute_comparison firstBlank kind secondBlank derived closes

/-! ## Formulas -/

private theorem readFormulaText_sound {opened : Option Nat} {opening : Nat}
    {text : List Char} {rest : List Token}
    {fewer : rest.length < tokens.length}
    (answered : readFormulaText opened opening tokens = .ok (text, ⟨rest, fewer⟩)) :
    ∃ parts close, tokens = parts ++ close :: rest ∧
      (∀ token ∈ parts, isFormulaPart token.kind = true) ∧
      close.kind = .rightParen ∧ parts.flatMap Token.text = text := by
  induction tokens generalizing text rest with
  | nil => cases fewer
  | cons token others induction =>
      rw [readFormulaText] at answered
      split at answered
      · rename_i closes
        simp only [pure_eq_ok, Prod.mk.injEq, Subtype.mk.injEq] at answered
        obtain ⟨rfl, rfl⟩ := answered
        exact ⟨[], token, rfl, by simp, closes, rfl⟩
      · split at answered
        · rename_i isPart
          simp only [bind_eq_ok, pure_eq_ok, Prod.mk.injEq, Subtype.mk.injEq]
            at answered
          obtain ⟨⟨more, after, _⟩, answered, rfl, rfl⟩ := answered
          obtain ⟨parts, close, rfl, areParts, closed, rfl⟩ := induction answered
          exact ⟨token :: parts, close, rfl,
            List.forall_mem_cons.mpr ⟨isPart, areParts⟩, closed, rfl⟩
        · split at answered
          · simp at answered
          · simp at answered

private theorem readFormulaText_complete {opened : Option Nat} {opening : Nat}
    {parts rest : List Token} {close : Token}
    {fewer : rest.length < tokens.length}
    (split : tokens = parts ++ close :: rest)
    (areParts : ∀ token ∈ parts, isFormulaPart token.kind = true)
    (closed : close.kind = .rightParen) :
    readFormulaText opened opening tokens =
      .ok (parts.flatMap Token.text, ⟨rest, fewer⟩) := by
  induction parts generalizing tokens with
  | nil =>
      subst split
      simp [readFormulaText, closed]
  | cons token more induction =>
      subst split
      obtain ⟨isPart, areParts⟩ := List.forall_mem_cons.mp areParts
      have opens : token.kind ≠ .rightParen := by
        intro kind
        simp [kind, isFormulaPart] at isPart
      have shorter : rest.length < (more ++ close :: rest).length := by
        simp only [List.length_append, List.length_cons]
        omega
      have read : readFormulaText opened opening (more ++ close :: rest) =
          .ok (more.flatMap Token.text, ⟨rest, shorter⟩) :=
        induction rfl areParts
      simp only [List.cons_append, readFormulaText, if_neg opens, isPart, if_true,
        read]
      rfl

theorem readFormula_iff {opened : Option Nat} {opening : Nat} {formula : Nth}
    {rest : List Token} {fewer : rest.length < tokens.length} :
    readFormula opened opening tokens = .ok (formula, ⟨rest, fewer⟩) ↔
      ∃ segment, tokens = segment ++ rest ∧ Formula segment formula := by
  simp only [readFormula, bind_eq_ok]
  constructor
  · intro read
    obtain ⟨⟨text, after, _⟩, answered, result⟩ := read
    obtain ⟨parts, close, rfl, areParts, closed, rfl⟩ :=
      readFormulaText_sound answered
    simp only at result
    split at result
    · rename_i parsed
      simp only [pure_eq_ok, Prod.mk.injEq, Subtype.mk.injEq] at result
      obtain ⟨rfl, rfl⟩ := result
      exact ⟨parts ++ [close], by simp, .parts areParts closed parsed⟩
    · simp at result
  · intro derivation
    obtain ⟨segment, rfl, derived⟩ := derivation
    cases derived with
    | @parts parts close formula areParts closed parsed =>
      refine ⟨(parts.flatMap Token.text, ⟨rest, fewer⟩),
        readFormulaText_complete (by simp) areParts closed, ?_⟩
      simp [parsed]

end Selector.Parser

end TreeSelectors
