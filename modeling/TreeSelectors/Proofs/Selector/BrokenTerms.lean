import TreeSelectors.Proofs.Selector.Breaks

/-!
# Attribute tests and formulas that break off

Inside of brackets the end of a text is an error that names the brackets; inside of a
formula, it is one that names the function of the formula.  Any other error there names
the token that is at fault, and does not depend on where the text ends.
-/

namespace TreeSelectors

open Grammar Token

namespace Selector.Parser

variable {cut : Break} {body segment remaining : List Token} {opened : Option Nat}

/-! ## Attribute tests -/

/-- Flat tokens, without brackets among them. -/
def Unbracketed (segment : List Token) : Prop :=
  Flat segment ∧
    ∀ token ∈ segment, token.kind ≠ .leftBracket ∧ token.kind ≠ .rightBracket

/-- The tokens end inside the brackets that open at an offset. -/
def Unended (bracket : Nat) (body : List Token) (failure : ParseError) : Prop :=
  failure = .unclosedBracket bracket ∧ Unbracketed body

theorem Unbracketed.append {first second : List Token} (head : Unbracketed first)
    (tail : Unbracketed second) : Unbracketed (first ++ second) :=
  ⟨flat_append_iff.mpr ⟨head.1, tail.1⟩, List.forall_mem_append.mpr ⟨head.2, tail.2⟩⟩

theorem Unbracketed.nil : Unbracketed [] :=
  ⟨flat_nil, List.forall_mem_nil _⟩

theorem Unbracketed.single {token : Token} (flat : token.isFlat = true)
    (kind : token.kind ≠ .colon ∧ token.kind ≠ .leftBracket ∧
      token.kind ≠ .rightBracket) :
    Unbracketed [token] := by
  simp [Unbracketed, flat, kind]

theorem Unbracketed.ident {token : Token} {name : String}
    (kind : token.kind = .ident name) : Unbracketed [token] :=
  .single (by simp [isFlat, kind]) (by simp [kind])

theorem Unbracketed.of_blank (isBlank : Blank segment) : Unbracketed segment :=
  ⟨isBlank.flat, fun token member => by simp [isBlank token member]⟩

section

variable {opened : Option Nat} {bracket : Nat} {α β : Type}
  {left right : List Token → Prop} {holds : List Token → Prop}

private theorem bracketError_cons {token : Token} (goesOn : token.kind ≠ .endOfInput)
    (rest : List Token) :
    bracketError opened bracket (token :: rest) = .refusing token := by
  unfold bracketError
  split
  · exact absurd ‹_› goesOn
  · exact ParseError.atToken_cons goesOn _ _

/-- Readings inside of brackets. -/
abbrev Inside (cut : Break) (bracket : Nat) (holds : List Token → Prop)
    (body : List Token) (first : Except ParseError (α × { rest // left rest }))
    (second : Except ParseError (α × { rest // right rest })) : Prop :=
  cut.Outcomes (Unended bracket body) (Faults body) (fun _ => False)
    (cut.Reads holds body) first second

theorem Inside.behind {first : Except ParseError (α × { rest // left rest })}
    {second : Except ParseError (α × { rest // right rest })}
    (inside : Inside cut bracket holds remaining first second)
    (front : Unbracketed segment)
    (prepends : ∀ other, holds other → holds (segment ++ other)) :
    Inside cut bracket holds (segment ++ remaining) first second := by
  refine inside.mono ?_ (fun _ => .append) (fun _ => id) ?_
  · rintro _ ⟨rfl, tail⟩
    exact ⟨rfl, front.append tail⟩
  · rintro _ _ ⟨rfl, read⟩
    exact .intro (List.append_assoc _ _ _).symm (prepends _ read)

theorem Inside.flat_behind {first : Except ParseError (α × { rest // left rest })}
    {second : Except ParseError (α × { rest // right rest })}
    (inside : Inside cut bracket Flat remaining first second)
    (front : Unbracketed segment) :
    Inside cut bracket Flat (segment ++ remaining) first second :=
  inside.behind front fun _ flat => flat_append_iff.mpr ⟨front.1, flat⟩

/-- Inside of brackets no reader goes on where it is stuck. -/
theorem Inside.stuck (goesOn : GoesOn body) :
    Inside cut bracket holds body
      (.error (bracketError opened bracket (body ++ [cut.stop])) :
        Except ParseError (α × { rest // left rest }))
      (.error (bracketError opened bracket (body ++ cut.bad :: cut.more)) :
        Except ParseError (α × { rest // right rest })) := by
  cases body with
  | nil =>
      have broken : bracketError opened bracket (cut.bad :: cut.more) =
          .refusing cut.bad :=
        bracketError_cons (by simp) _
      have ended : bracketError opened bracket [cut.stop] = .unclosedBracket bracket := by
        simp [bracketError, Token.peek]
      rw [List.nil_append, List.nil_append, broken, ended]
      exact .lacking ⟨rfl, .nil⟩
  | cons token rest =>
      have fault := goesOn token List.mem_cons_self
      rw [List.cons_append, List.cons_append, bracketError_cons fault,
        bracketError_cons fault]
      exact .faulty (.token List.mem_cons_self)

/-- What goes on behind a segment without brackets, goes on inside of the same ones. -/
theorem Inside.bind {leftNext rightNext : List Token → Prop}
    {first : Except ParseError (α × { rest // left rest })}
    {second : Except ParseError (α × { rest // right rest })}
    {next : α × { rest // left rest } → Except ParseError (β × { rest // leftNext rest })}
    {other : α × { rest // right rest } →
      Except ParseError (β × { rest // rightNext rest })}
    (inside : Inside cut bracket Unbracketed body first second)
    (continues : ∀ value segment remaining fits fitsOther, body = segment ++ remaining →
      Inside cut bracket Flat remaining (next (value, ⟨remaining ++ [cut.stop], fits⟩))
        (other (value, ⟨remaining ++ cut.bad :: cut.more, fitsOther⟩))) :
    Inside cut bracket Flat body (first >>= next) (second >>= other) := by
  refine Break.Outcomes.bind inside ?_ fun _ => False.elim
  rintro _ _ ⟨rfl, segment⟩
  exact (continues _ _ _ _ _ rfl).flat_behind segment

private theorem readOperator_inside (goesOn : GoesOn body) :
    Inside cut bracket Unbracketed body
      (readOperator (bracketError opened bracket) (body ++ [cut.stop]))
      (readOperator (bracketError opened bracket) (body ++ cut.bad :: cut.more)) := by
  cases body with
  | nil =>
      simp only [List.nil_append, readOperator, cut.stops, cut.breaks]
      exact Inside.stuck goesOn
  | cons token rest =>
      rw [List.cons_append, List.cons_append, readOperator, readOperator]
      split
      · rename_i kind
        have sign : Unbracketed [token] :=
          .single (by simp [isFlat, kind]) (by simp [kind])
        exact .read (.intro rfl sign)
      · rename_i char _ kind
        split
        · exact Inside.stuck goesOn
        · rename_i operator known
          have sign : Unbracketed [token] :=
            .single (isFlat_of_operatorOf? kind known) (by simp [kind])
          rcases accept?_cases (.delim '=') (by simp) (by simp) cut rest with
            ⟨whole, broken⟩ | ⟨equals, rest, _, _, rfl, equal, whole, broken⟩
          · rw [whole, broken]
            exact (Inside.stuck goesOn.tail).behind sign fun _ => sign.append
          · rw [whole, broken]
            have closed : Unbracketed [equals] :=
              .single (by simp [isFlat, equal]) (by simp [equal])
            exact .read (.intro rfl (sign.append closed))
      · exact Inside.stuck goesOn

private theorem readValue_inside (goesOn : GoesOn body) :
    Inside cut bracket Unbracketed body
      (readValue (bracketError opened bracket) (body ++ [cut.stop]))
      (readValue (bracketError opened bracket) (body ++ cut.bad :: cut.more)) := by
  cases body with
  | nil =>
      simp only [List.nil_append, readValue, cut.stops, cut.breaks]
      exact Inside.stuck goesOn
  | cons token rest =>
      rw [List.cons_append, List.cons_append, readValue, readValue]
      split
      · rename_i kind
        exact .read (.intro rfl (.ident kind))
      · rename_i kind
        have value : Unbracketed [token] :=
          .single (by simp [isFlat, kind]) (by simp [kind])
        exact .read (.intro rfl value)
      · exact Inside.stuck goesOn

/-- A flag is read alike in front of the end and of a broken text. -/
theorem exists_readFlag (cut : Break) (body : List Token) :
    ∃ flags remaining flag fits fitsOther, body = flags ++ remaining ∧
      Unbracketed flags ∧
      readFlag (body ++ [cut.stop]) = (flag, ⟨remaining ++ [cut.stop], fits⟩) ∧
      readFlag (body ++ cut.bad :: cut.more) =
        (flag, ⟨remaining ++ cut.bad :: cut.more, fitsOther⟩) := by
  rcases readIdent?_cases cut body with
    ⟨whole, broken⟩ | ⟨token, rest, name, fewer, fewerOther, rfl, kind, whole, broken⟩
  · refine ⟨[], body, .unstated, Nat.le_refl _, Nat.le_refl _, rfl, .nil, ?_, ?_⟩
    · rw [readFlag, whole]
    · rw [readFlag, broken]
  · obtain ⟨blank, remaining, fits, fitsOther, rfl, isBlank, skipped, skippedBroken⟩ :=
      exists_skipBlank cut rest
    have flags : Unbracketed (token :: blank) :=
      (Unbracketed.ident kind).append (.of_blank isBlank)
    have shorter := Nat.le_of_lt (Nat.lt_of_le_of_lt fits fewer)
    have shorterOther := Nat.le_of_lt (Nat.lt_of_le_of_lt fitsOther fewerOther)
    simp only [readFlag, whole, broken, skipped, skippedBroken]
    split
    · exact ⟨token :: blank, remaining, _, shorter, shorterOther, rfl, flags, rfl, rfl⟩
    · split
      · exact ⟨token :: blank, remaining, _, shorter, shorterOther, rfl, flags, rfl,
          rfl⟩
      · exact ⟨[], _, _, Nat.le_refl _, Nat.le_refl _, rfl, .nil, rfl, rfl⟩

private theorem readComparison_inside (name : String) (goesOn : GoesOn body) :
    Inside cut bracket Flat body
      (readComparison (bracketError opened bracket) name (body ++ [cut.stop]))
      (readComparison (bracketError opened bracket) name
        (body ++ cut.bad :: cut.more)) := by
  unfold readComparison
  refine (readOperator_inside goesOn).bind ?_
  rintro operator sign afterOperator _ _ rfl
  obtain ⟨blank, beforeValue, _, _, rfl, isBlank, skipped, skippedBroken⟩ :=
    exists_skipBlank cut afterOperator
  have goesOn := goesOn.behind.behind
  dsimp only
  rw [skipped, skippedBroken]
  refine Inside.flat_behind ?_ (.of_blank isBlank)
  refine (readValue_inside goesOn).bind ?_
  rintro value segment afterValue _ _ rfl
  obtain ⟨gap, beforeFlag, _, _, rfl, isGap, skipped, skippedBroken⟩ :=
    exists_skipBlank cut afterValue
  obtain ⟨flags, remaining, flag, _, _, rfl, isFlags, flagged, flaggedBroken⟩ :=
    exists_readFlag cut beforeFlag
  have goesOn := goesOn.behind.behind
  dsimp only
  rw [skipped, skippedBroken]
  dsimp only
  rw [flagged, flaggedBroken]
  dsimp only
  refine Inside.flat_behind ?_ (.of_blank isGap)
  refine Inside.flat_behind ?_ isFlags
  rcases accept?_cases .rightBracket (by simp) (by simp) cut remaining with
    ⟨whole, broken⟩ | ⟨close, rest, _, _, rfl, closes, whole, broken⟩
  · rw [whole, broken]
    exact Inside.stuck goesOn.behind
  · rw [whole, broken]
    have flat : Flat [close] := by simp [isFlat, closes]
    exact .read (.intro rfl flat)

/-- An attribute test that is not closed names its bracket. -/
theorem readAttribute_inside (goesOn : GoesOn body) :
    Inside cut bracket Flat body (readAttribute opened bracket (body ++ [cut.stop]))
      (readAttribute opened bracket (body ++ cut.bad :: cut.more)) := by
  unfold readAttribute
  obtain ⟨blank, beforeName, _, _, rfl, isBlank, skipped, skippedBroken⟩ :=
    exists_skipBlank cut body
  dsimp only
  rw [skipped, skippedBroken]
  refine Inside.flat_behind ?_ (.of_blank isBlank)
  have goesOn := goesOn.behind
  dsimp only
  rcases readIdent?_cases cut beforeName with
    ⟨whole, broken⟩ | ⟨token, afterName, name, _, _, rfl, kind, whole, broken⟩
  · rw [whole, broken]
    exact Inside.stuck goesOn
  · rw [whole, broken]
    obtain ⟨gap, beforeOperator, _, _, rfl, isGap, skipped, skippedBroken⟩ :=
      exists_skipBlank cut afterName
    have named : Unbracketed (token :: gap) :=
      (Unbracketed.ident kind).append (.of_blank isGap)
    have goesOn := goesOn.tail.behind
    change Inside cut bracket Flat (token :: gap ++ beforeOperator) _ _
    refine Inside.flat_behind ?_ named
    dsimp only
    rw [skipped, skippedBroken]
    dsimp only
    rcases accept?_cases .rightBracket (by simp) (by simp) cut beforeOperator with
      ⟨whole, broken⟩ | ⟨close, rest, _, _, rfl, closes, whole, broken⟩
    · rw [whole, broken]
      refine Break.Outcomes.bind (readComparison_inside name goesOn) ?_
        fun _ => False.elim
      rintro _ _ ⟨rfl, flat⟩
      exact .read (.intro rfl flat)
    · rw [whole, broken]
      have flat : Flat [close] := by simp [isFlat, closes]
      exact .read (.intro rfl flat)

end

/-! ## Formulas -/

/-- Flat tokens with a closing parenthesis behind them. -/
def ClosesParen (segment : List Token) : Prop :=
  ∃ parts close, segment = parts ++ [close] ∧ Flat parts ∧ close.kind = .rightParen

/-- The tokens end inside the formula of the function at an offset. -/
def Unclosed (opening : Nat) (body : List Token) (failure : ParseError) : Prop :=
  failure = .unclosedParen opening ∧ Flat body

section

variable {opening : Nat}

theorem readFormulaText_outcomes (goesOn : GoesOn body) :
    cut.Outcomes (Unclosed opening body) (Faults body) (fun _ => False)
      (cut.Reads ClosesParen body) (readFormulaText opened opening (body ++ [cut.stop]))
      (readFormulaText opened opening (body ++ cut.bad :: cut.more)) := by
  induction body with
  | nil =>
      simp only [List.nil_append, readFormulaText, cut.stops, cut.breaks, isFormulaPart,
        reduceCtorEq, Bool.false_eq_true, if_false, if_true, cut.atToken_bad]
      exact .lacking ⟨rfl, flat_nil⟩
  | cons token rest induction =>
      rw [List.cons_append, List.cons_append, readFormulaText, readFormulaText]
      by_cases closes : token.kind = .rightParen
      · rw [if_pos closes, if_pos closes]
        exact .read (.intro rfl ⟨[], token, rfl, flat_nil, closes⟩)
      · rw [if_neg closes, if_neg closes]
        by_cases part : isFormulaPart token.kind = true
        · rw [if_pos part, if_pos part]
          have flat : Flat [token] := flat_of_isFormulaPart (by simpa using part)
          refine Break.Outcomes.bind ((induction goesOn.tail).mono ?_ (fun _ => .cons)
            (fun _ => id) (fun _ _ => id)) ?_ fun _ => False.elim
          · rintro _ ⟨rfl, others⟩
            exact ⟨rfl, flat_append_iff.mpr ⟨flat, others⟩⟩
          · rintro _ _ ⟨rfl, parts, close, rfl, others, closing⟩
            exact .read (.intro rfl
              ⟨token :: parts, close, rfl, flat_append_iff.mpr ⟨flat, others⟩, closing⟩)
        · have goes := goesOn token List.mem_cons_self
          rw [if_neg part, if_neg part, if_neg goes, if_neg goes,
            ParseError.atToken_cons goes, ParseError.atToken_cons goes]
          exact .faulty (.token List.mem_cons_self)

/-- A formula that is not closed names its function. -/
theorem readFormula_outcomes (goesOn : GoesOn body) :
    cut.Outcomes (Unclosed opening body) (Faults body) (fun _ => False)
      (cut.Reads ClosesParen body) (readFormula opened opening (body ++ [cut.stop]))
      (readFormula opened opening (body ++ cut.bad :: cut.more)) := by
  unfold readFormula
  refine (readFormulaText_outcomes goesOn).bind ?_ fun _ => False.elim
  rintro _ _ ⟨split, closes⟩
  rename_i text _ _
  dsimp only
  cases Nth.parse text with
  | none => exact .faulty (.general id)
  | some formula => exact .read (.intro split closes)

end

theorem readClassName_outcomes (goesOn : GoesOn body) :
    cut.Outcomes (fun failure => body = [] ∧ failure = .atEnd opened) (Faults body)
      (fun _ => False) (cut.Reads Flat body)
      (readClassName opened (body ++ [cut.stop]))
      (readClassName opened (body ++ cut.bad :: cut.more)) := by
  cases body with
  | nil =>
      simp only [List.nil_append, readClassName, cut.stops, cut.breaks, cut.atToken_stop,
        cut.atToken_bad]
      exact .lacking ⟨trivial, rfl⟩
  | cons token rest =>
      have goes := goesOn token List.mem_cons_self
      rw [List.cons_append, List.cons_append, readClassName, readClassName]
      split
      · rename_i kind _
        have flat : Flat [token] := by simp [isFlat, kind]
        exact .read (.intro rfl flat)
      · rw [ParseError.atToken_cons goes, ParseError.atToken_cons goes]
        exact .faulty (.token List.mem_cons_self)

end Selector.Parser

end TreeSelectors
