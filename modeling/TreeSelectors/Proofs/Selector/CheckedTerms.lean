import TreeSelectors.Proofs.Token.Tiling
import TreeSelectors.Proofs.Selector.CheckedReading

/-!
# Attribute tests and formulas within bounds

A reading by positions follows one of tokens if both end alike whatever progress was
made: with the same value, and the cursor at the first token that is left, or with the
same refusal.  A reading that follows another one hence never looks outside of the page
and never loops for too long.  As the tokens of a text lie side by side and the last of
them is never passed, the readers of attribute tests and of formulas follow those of
tokens.
-/

namespace TreeSelectors

theorem Reading.ofExcept_bind {σ α β : Type} (first : Except ParseError α)
    (next : α → Except ParseError β) :
    (ofExcept (first >>= next) : Reading σ β) =
      ofExcept first >>= fun value => ofExcept (next value) := by
  cases first with
  | ok value | error failure => rfl

namespace CheckedReading

open Selector.Parser (Fewer isFormulaPart bracketError)

variable {σ α β γ δ : Type}

/-- Two readings have ended alike.  How values belong together may depend on where the
cursor is. -/
inductive Agree (related : α → β → Nat → Prop) :
    EStateM.Result ParseError (Progress σ) α → EStateM.Result Halt (Cursor σ) β → Prop where
  | read {given : α} {value : β} {position : Nat} {progress : Progress σ} :
      related given value position →
      Agree related (.ok given progress) (.ok value ⟨position, progress⟩)
  | refused {failure : ParseError} {position : Nat} {progress : Progress σ} :
      Agree related (.error failure progress)
        (.error (.refused failure) ⟨position, progress⟩)

/-- From a position on, a reading by positions ends like one of tokens. -/
def Follows (related : α → β → Nat → Prop) (position : Nat) (checked : CheckedReading σ β)
    (reading : Reading σ α) : Prop :=
  ∀ progress, Agree related (reading progress) (checked ⟨position, progress⟩)

/-- From a position on, a reading by positions gets a value and changes nothing but its
position. -/
def Gets (checked : CheckedReading σ α) (position : Nat) (value : α) (final : Nat) : Prop :=
  ∀ progress, checked ⟨position, progress⟩ = .ok value ⟨final, progress⟩

/-- The same value, and the cursor at the first token that is left. -/
def Arrives (text : String) {left : List Token → Prop}
    (given : α × { rest : List Token // left rest }) (value : α) (position : Nat) : Prop :=
  given.1 = value ∧ Token.At text position given.2.val

section

variable {related : α → β → Nat → Prop} {position middle final : Nat}

theorem Follows.pure {given : α} {value : β} (agrees : related given value position) :
    Follows related position (pure value : CheckedReading σ β) (pure given) :=
  fun _ => .read agrees

theorem Follows.refuse (failure : ParseError) :
    Follows related position (refuse failure : CheckedReading σ β) (throw failure) :=
  fun _ => .refused

theorem Follows.of (reading : Reading σ α) :
    Follows (fun given value next => given = value ∧ next = position) position
      (of reading) reading := by
  intro progress
  simp only [CheckedReading.of]
  cases reading progress with
  | ok value final => exact .read ⟨rfl, rfl⟩
  | error failure final => exact .refused

theorem Follows.bind {relatedNext : γ → δ → Nat → Prop} {checked : CheckedReading σ β}
    {reading : Reading σ α} {next : β → CheckedReading σ δ} {other : α → Reading σ γ}
    (follows : Follows related position checked reading)
    (continues : ∀ given value middle, related given value middle →
      Follows relatedNext middle (next value) (other given)) :
    Follows relatedNext position (checked >>= next) (reading >>= other) := by
  intro progress
  have agree := follows progress
  simp only [Bind.bind, EStateM.bind]
  generalize reading progress = first at agree
  generalize checked ⟨position, progress⟩ = second at agree
  cases agree with
  | read agrees => exact continues _ _ _ agrees _
  | refused => exact .refused

/-- A step that the reading by positions does not take. -/
theorem Follows.bind_right {relatedNext : γ → β → Nat → Prop} {checked : CheckedReading σ β}
    {reading : Reading σ α} {other : α → Reading σ γ}
    (follows : Follows related position checked reading)
    (continues : ∀ given value middle, related given value middle →
      Follows relatedNext middle (Pure.pure value) (other given)) :
    Follows relatedNext position checked (reading >>= other) := by
  rw [← bind_pure checked]
  exact follows.bind continues

/-- A step that the reading of tokens does not take. -/
theorem Follows.step {value : γ} {checked : CheckedReading σ γ}
    {next : γ → CheckedReading σ β} {reading : Reading σ α}
    (gets : Gets checked position value middle)
    (follows : Follows related middle (next value) reading) :
    Follows related position (checked >>= next) reading := by
  intro progress
  simp only [Bind.bind, EStateM.bind, gets progress]
  exact follows progress

theorem Gets.step {value : α} {result : β} {checked : CheckedReading σ α}
    {next : α → CheckedReading σ β} (gets : Gets checked position value middle)
    (others : Gets (next value) middle result final) :
    Gets (checked >>= next) position result final := by
  intro progress
  simp only [Bind.bind, EStateM.bind, gets progress]
  exact others progress

theorem Gets.pure (value : α) :
    Gets (pure value : CheckedReading σ α) position value position :=
  fun _ => rfl

end

/-! ## Looking at the page -/

section

variable {text : String} {position : Nat} {token : Token} {rest tokens : List Token}

theorem gets_current (here : Token.At text position (token :: rest)) :
    Gets (current (.ofText text) : CheckedReading σ Span) position token.span position := by
  intro progress
  have found : (Page.ofText text).spans[position]? = some token.span := by
    rw [Page.ofText, List.getElem?_map, here.getElem?]
    rfl
  have looked : (get : CheckedReading σ (Cursor σ)) = fun cursor => .ok cursor cursor := rfl
  simp [current, looked, bind, EStateM.bind, found, pure, EStateM.pure]

theorem gets_peek (here : Token.At text position (token :: rest)) {kind : TokenKind}
    (found : token.kind = kind) :
    Gets (peek (.ofText text) : CheckedReading σ TokenKind) position kind position :=
  found ▸ (gets_current here).step (.pure _)

theorem gets_peek_head (here : Token.At text position tokens) :
    Gets (peek (.ofText text) : CheckedReading σ TokenKind) position (Token.peek tokens)
      position := by
  obtain ⟨token, rest, rfl⟩ := here.exists_cons
  exact gets_peek here rfl

private theorem gets_advance (here : Token.At text position (token :: rest))
    (goesOn : token.kind ≠ .endOfInput) :
    Gets (advance (.ofText text) : CheckedReading σ Unit) position () (position + 1) := by
  refine (gets_peek here rfl).step ?_
  rw [if_pos goesOn]
  exact fun _ => rfl

/-- Only the end of the input is not passed. -/
theorem passes (here : Token.At text position (token :: rest)) {kind : TokenKind}
    (found : token.kind = kind) (goesOn : kind ≠ .endOfInput) :
    Token.At text (position + 1) rest ∧
      Gets (advance (.ofText text) : CheckedReading σ Unit) position () (position + 1) := by
  subst found
  exact ⟨here.tail goesOn, gets_advance here goesOn⟩

private theorem gets_source {start stop : Nat} (ordered : start ≤ stop)
    (fits : stop ≤ text.length) :
    Gets (source (.ofText text) start stop : CheckedReading σ String) position
      (Token.source text start stop) position := by
  unfold source
  rw [if_pos ⟨ordered, fits⟩]
  exact .pure _

/-- There are no characters between offsets that are out of order. -/
example (cursor : Cursor Unit) :
    source (.ofText "ab") 2 1 cursor = .error .outOfBounds cursor := by
  rfl

theorem gets_startsWithDigit (here : Token.At text position (token :: rest))
    {skipped : Nat} (fits : skipped ≤ token.text.length) :
    Gets (startsWithDigit (.ofText text) (token.start + skipped) token.stop :
      CheckedReading σ Bool) position (token.startsWithDigit skipped) position := by
  obtain ⟨ordered, inside, characters⟩ := here.source_own fits
  refine (gets_source ordered inside).step ?_
  rw [characters]
  exact .pure _

/-- The token at the cursor is refused alike. -/
theorem follows_refuseHere {related : α → β → Nat → Prop} (opened : Option Nat)
    (here : Token.At text position tokens) :
    Follows related position (refuseHere (.ofText text) opened : CheckedReading σ β)
      (throw (ParseError.atToken opened tokens)) := by
  obtain ⟨token, rest, rfl⟩ := here.exists_cons
  refine .step (gets_current here) ?_
  simp only [Token.span, ParseError.atToken]
  cases token.kind <;> exact .refuse _

/-- In as many rounds as there are tokens, white space is left out. -/
theorem exists_gets_skipBlankWithin {rounds : Nat} (here : Token.At text position tokens)
    (enough : tokens.length ≤ rounds) :
    ∃ final gap,
      Gets (skipBlankWithin (.ofText text) rounds : CheckedReading σ Bool) position gap
        final ∧
      Token.At text final (Selector.Parser.skipBlank tokens).val ∧
      (gap = true ↔ (Selector.Parser.skipBlank tokens).val.length < tokens.length) := by
  induction rounds generalizing position tokens with
  | zero => exact absurd enough (Nat.not_le.mpr here.length_pos)
  | succ rounds induction =>
      obtain ⟨token, rest, rfl⟩ := here.exists_cons
      by_cases kind : token.kind = .whitespace
      · obtain ⟨there, advances⟩ := passes here kind (by simp)
        obtain ⟨final, gap, gets, there, -⟩ :=
          induction there (Nat.le_of_succ_le_succ enough)
        have skipped : (Selector.Parser.skipBlank (token :: rest)).val =
            (Selector.Parser.skipBlank rest).val := by
          simp [Selector.Parser.skipBlank, kind]
        have shorter := (Selector.Parser.skipBlank rest).property
        refine ⟨final, true, ?_, skipped ▸ there, ?_⟩
        · refine (gets_peek here rfl).step ?_
          rw [if_pos kind]
          exact advances.step (gets.step (.pure _))
        · rw [skipped]
          exact iff_of_true rfl (Nat.lt_succ_of_le shorter)
      · have skipped : (Selector.Parser.skipBlank (token :: rest)).val = token :: rest := by
          simp [Selector.Parser.skipBlank, kind]
        refine ⟨position, false, ?_, skipped.symm ▸ here, ?_⟩
        · refine (gets_peek here rfl).step ?_
          rw [if_neg kind]
          exact .pure _
        · rw [skipped]
          exact iff_of_false Bool.false_ne_true (Nat.lt_irrefl _)

theorem length_le_rounds (here : Token.At text position tokens) :
    tokens.length ≤ rounds (.ofText text) := by
  rw [rounds, Page.ofText, List.length_map]
  exact here.length_le

/-- White space is left out alike; whether there was any shows in how many tokens are
left. -/
theorem exists_skipBlank (here : Token.At text position tokens) :
    ∃ final gap, Token.At text final (Selector.Parser.skipBlank tokens).val ∧
      Gets (skipBlank (.ofText text) : CheckedReading σ Bool) position gap final ∧
      (gap = true ↔ (Selector.Parser.skipBlank tokens).val.length < tokens.length) := by
  obtain ⟨final, gap, gets, there, shorter⟩ :=
    exists_gets_skipBlankWithin here (length_le_rounds here)
  exact ⟨final, gap, there, gets, shorter⟩

/-- A token of one kind is accepted alike. -/
theorem accept?_cases (kind : TokenKind) (goesOn : kind ≠ .endOfInput)
    (here : Token.At text position tokens) :
    (∃ rest fits, Selector.Parser.accept? kind tokens = some ⟨rest, fits⟩ ∧
      Token.At text (position + 1) rest ∧
      Gets (peek (.ofText text) : CheckedReading σ TokenKind) position kind position ∧
      Gets (advance (.ofText text) : CheckedReading σ Unit) position () (position + 1)) ∨
    (∃ found,
      Gets (peek (.ofText text) : CheckedReading σ TokenKind) position found position ∧
      found ≠ kind ∧ Selector.Parser.accept? kind tokens = none) := by
  obtain ⟨token, rest, rfl⟩ := here.exists_cons
  by_cases same : token.kind = kind
  · obtain ⟨there, advances⟩ := passes here same goesOn
    exact .inl ⟨rest, Nat.lt_succ_self _, if_pos same, there, gets_peek here same,
      advances⟩
  · exact .inr ⟨token.kind, gets_peek here rfl, same, if_neg same⟩

/-- A name is read alike, if it comes next. -/
theorem readIdent?_cases (here : Token.At text position tokens) :
    (∃ name rest fits, Selector.Parser.readIdent? tokens = some (name, ⟨rest, fits⟩) ∧
      Token.At text (position + 1) rest ∧
      Gets (peek (.ofText text) : CheckedReading σ TokenKind) position (.ident name)
        position ∧
      Gets (advance (.ofText text) : CheckedReading σ Unit) position () (position + 1)) ∨
    (∃ found,
      Gets (peek (.ofText text) : CheckedReading σ TokenKind) position found position ∧
      (∀ name, found ≠ .ident name) ∧ Selector.Parser.readIdent? tokens = none) := by
  obtain ⟨token, rest, rfl⟩ := here.exists_cons
  rw [Selector.Parser.readIdent?]
  cases kind : token.kind with
  | ident name =>
      obtain ⟨there, advances⟩ := passes here kind (by simp)
      exact .inl ⟨name, rest, Nat.lt_succ_self _, rfl, there, gets_peek here kind,
        advances⟩
  | _ => exact .inr ⟨_, gets_peek here kind, by simp, rfl⟩

/-! ## Attribute tests -/

variable {opened : Option Nat} {bracket : Nat}

private theorem follows_refuseInBrackets {related : α → β → Nat → Prop}
    (here : Token.At text position tokens) :
    Follows related position
      (refuseInBrackets (.ofText text) opened bracket : CheckedReading σ β)
      (throw (bracketError opened bracket tokens)) := by
  obtain ⟨token, rest, rfl⟩ := here.exists_cons
  refine .step (gets_peek here rfl) ?_
  unfold bracketError
  by_cases ends : token.kind = .endOfInput
  · simp only [ends, if_true, Token.peek]
    exact .refuse _
  · rw [if_neg ends]
    split
    · exact absurd ‹_› ends
    · exact follows_refuseHere opened here

private theorem follows_readOperator (here : Token.At text position tokens) :
    Follows (Arrives text) position
      (readOperator (.ofText text) opened bracket :
        CheckedReading σ AttributeOperator)
      (Reading.ofExcept
        (Selector.Parser.readOperator (bracketError opened bracket) tokens)) := by
  obtain ⟨token, rest, rfl⟩ := here.exists_cons
  refine .step (gets_peek here rfl) ?_
  have stuck : Follows (Arrives text) position
      (refuseInBrackets (.ofText text) opened bracket :
        CheckedReading σ AttributeOperator)
      (throw (bracketError opened bracket (token :: rest)) :
        Reading σ (AttributeOperator × Fewer (token :: rest))) :=
    follows_refuseInBrackets here
  rw [Selector.Parser.readOperator]
  cases kind : token.kind with
  | delim char =>
      obtain ⟨there, advances⟩ := passes here kind (by simp)
      by_cases equals : char = '='
      · subst equals
        exact .step advances (.pure ⟨rfl, there⟩)
      · simp only
        cases Selector.Parser.operatorOf? char with
        | none => exact stuck
        | some operator =>
            refine .step advances ?_
            rcases accept?_cases (.delim '=') (by simp) there with
              ⟨more, _, accepted, after, peeks, advances⟩ | ⟨found, peeks, other, accepted⟩
            · rw [accepted]
              exact .step peeks (.step advances (.pure ⟨rfl, after⟩))
            · rw [accepted]
              refine .step peeks ?_
              rw [if_neg other]
              exact follows_refuseInBrackets there
  | _ => exact stuck

private theorem follows_readValue (here : Token.At text position tokens) :
    Follows (Arrives text) position
      (readValue (.ofText text) opened bracket : CheckedReading σ String)
      (Reading.ofExcept
        (Selector.Parser.readValue (bracketError opened bracket) tokens)) := by
  obtain ⟨token, rest, rfl⟩ := here.exists_cons
  refine .step (gets_peek here rfl) ?_
  rw [Selector.Parser.readValue]
  cases kind : token.kind with
  | ident value | string value =>
      obtain ⟨there, advances⟩ := passes here kind (by simp)
      exact .step advances (.pure ⟨rfl, there⟩)
  | _ => exact follows_refuseInBrackets here

/-- A flag is read alike. -/
theorem exists_readFlag (here : Token.At text position tokens) :
    ∃ final, Token.At text final (Selector.Parser.readFlag tokens).2.val ∧
      Gets (readFlag (.ofText text) : CheckedReading σ CaseFlag) position
        (Selector.Parser.readFlag tokens).1 final := by
  unfold Selector.Parser.readFlag
  rcases readIdent?_cases here with
    ⟨name, rest, _, named, there, peeks, advances⟩ | ⟨found, peeks, other, named⟩
  · obtain ⟨final, _, behind, skips, -⟩ := exists_skipBlank there
    simp only [named]
    by_cases insensitive : Text.sameFolded name "i"
    · rw [if_pos insensitive]
      refine ⟨final, behind, peeks.step ?_⟩
      simp only [insensitive, if_true]
      exact advances.step (skips.step (.pure _))
    · rw [if_neg insensitive]
      by_cases sensitive : Text.sameFolded name "s"
      · rw [if_pos sensitive]
        refine ⟨final, behind, peeks.step ?_⟩
        simp only [insensitive, sensitive, if_true]
        exact advances.step (skips.step (.pure _))
      · rw [if_neg sensitive]
        refine ⟨position, here, peeks.step ?_⟩
        simp only [insensitive, sensitive]
        exact .pure _
  · simp only [named]
    refine ⟨position, here, peeks.step ?_⟩
    split
    · exact absurd rfl (other _)
    · exact .pure _

private theorem follows_readComparison (name : String)
    (here : Token.At text position tokens) :
    Follows (Arrives text) position
      (readComparison (.ofText text) opened bracket name : CheckedReading σ AttributeTest)
      (Reading.ofExcept
        (Selector.Parser.readComparison (bracketError opened bracket) name tokens)) := by
  unfold Selector.Parser.readComparison
  rw [Reading.ofExcept_bind]
  refine (follows_readOperator here).bind ?_
  rintro ⟨operator, afterOperator, _⟩ _ _ ⟨rfl, there⟩
  obtain ⟨_, _, there, skips, -⟩ := exists_skipBlank there
  refine .step skips ?_
  dsimp only
  rw [Reading.ofExcept_bind]
  refine (follows_readValue there).bind ?_
  rintro ⟨value, afterValue, _⟩ _ _ ⟨rfl, there⟩
  obtain ⟨_, _, there, skips, -⟩ := exists_skipBlank there
  obtain ⟨_, there, flags⟩ := exists_readFlag there
  refine .step skips (.step flags ?_)
  dsimp only
  rcases accept?_cases .rightBracket (by simp) there with
    ⟨rest, _, accepted, there, peeks, advances⟩ | ⟨found, peeks, other, accepted⟩
  · simp only [accepted]
    exact .step peeks (.step advances (.pure ⟨rfl, there⟩))
  · simp only [accepted]
    refine .step peeks ?_
    rw [if_neg other]
    exact follows_refuseInBrackets there

theorem follows_readAttribute (here : Token.At text position tokens) :
    Follows (Arrives text) position
      (readAttribute (.ofText text) opened bracket : CheckedReading σ AttributeTest)
      (Reading.ofExcept (Selector.Parser.readAttribute opened bracket tokens)) := by
  unfold Selector.Parser.readAttribute
  obtain ⟨_, _, there, skips, -⟩ := exists_skipBlank here
  refine .step skips ?_
  dsimp only
  rcases readIdent?_cases there with
    ⟨name, afterName, _, named, there, peeks, advances⟩ | ⟨found, peeks, other, named⟩
  · obtain ⟨_, _, there, skips, -⟩ := exists_skipBlank there
    simp only [named]
    refine .step peeks (.step advances (.step skips ?_))
    rcases accept?_cases .rightBracket (by simp) there with
      ⟨rest, _, accepted, there, peeks, advances⟩ | ⟨found, peeks, other, accepted⟩
    · simp only [accepted]
      exact .step peeks (.step advances (.pure ⟨rfl, there⟩))
    · simp only [accepted]
      refine .step peeks ?_
      rw [if_neg other, Reading.ofExcept_bind]
      refine (follows_readComparison name there).bind_right ?_
      rintro ⟨test, rest, _⟩ _ _ ⟨rfl, there⟩
      exact .pure ⟨rfl, there⟩
  · simp only [named]
    refine .step peeks ?_
    split
    · exact absurd rfl (other _)
    · exact follows_refuseInBrackets there

/-! ## Formulas -/

variable {opening : Nat}

/-- The cursor is at the parenthesis that closes a formula, which starts where the parts
of the formula stop. -/
def Closes (text : String) (tokens : List Token) (given : List Char × Fewer tokens)
    (stop position : Nat) : Prop :=
  ∃ parts closing, tokens = parts ++ closing :: given.2.val ∧
    closing.kind = .rightParen ∧ given.1 = parts.flatMap Token.text ∧
    stop = closing.start ∧ Token.At text position (closing :: given.2.val)

private theorem goesOn_of_isFormulaPart (part : isFormulaPart token.kind) :
    token.kind ≠ .endOfInput := by
  intro ends
  simp [ends, isFormulaPart] at part

private theorem follows_skipFormulaWithin {rounds : Nat}
    (here : Token.At text position (token :: rest))
    (enough : (token :: rest).length ≤ rounds) :
    Follows (Closes text (token :: rest)) position
      (skipFormulaWithin (.ofText text) opened opening rounds token.start :
        CheckedReading σ Nat)
      (Reading.ofExcept
        (Selector.Parser.readFormulaText opened opening (token :: rest))) := by
  induction rounds generalizing position token rest with
  | zero => exact absurd enough (Nat.not_succ_le_zero _)
  | succ rounds induction =>
      refine .step (gets_current here) ?_
      dsimp only [Token.span]
      rw [Selector.Parser.readFormulaText]
      by_cases closing : token.kind = .rightParen
      · rw [if_pos closing, if_pos closing]
        exact .pure ⟨[], token, rfl, closing, rfl, rfl, here⟩
      · rw [if_neg closing, if_neg closing]
        by_cases part : isFormulaPart token.kind = true
        · obtain ⟨there, advances⟩ := passes here rfl (goesOn_of_isFormulaPart part)
          rw [if_pos part, if_pos part, Reading.ofExcept_bind]
          refine .step advances ?_
          obtain ⟨next, more, rfl⟩ := there.exists_cons
          -- The offset where this part stops becomes that where the next one starts.
          rw [here.stop_eq_start]
          refine (induction there (Nat.le_of_succ_le_succ enough)).bind_right ?_
          rintro ⟨_, after, _⟩ _ _ ⟨parts, last, split, closes, rfl, rfl, there⟩
          exact .pure ⟨token :: parts, last, congrArg _ split, closes, rfl, rfl, there⟩
        · rw [if_neg part, if_neg part]
          by_cases ends : token.kind = .endOfInput
          · rw [if_pos ends, if_pos ends]
            exact .refuse _
          · rw [if_neg ends, if_neg ends]
            exact follows_refuseHere opened here

theorem follows_readFormula (here : Token.At text position tokens) :
    Follows (Arrives text) position
      (readFormula (.ofText text) opened opening : CheckedReading σ Nth)
      (Reading.ofExcept (Selector.Parser.readFormula opened opening tokens)) := by
  obtain ⟨token, rest, rfl⟩ := here.exists_cons
  refine .step (gets_current here) ?_
  unfold Selector.Parser.readFormula
  rw [Reading.ofExcept_bind]
  refine (follows_skipFormulaWithin here (length_le_rounds here)).bind ?_
  rintro ⟨_, after, _⟩ _ _ ⟨parts, closing, split, closes, rfl, rfl, there⟩
  obtain ⟨behind, advances⟩ := passes there closes (by simp)
  obtain ⟨ordered, fits, characters⟩ := here.source_eq split
  refine .step advances (.step (gets_source ordered fits) ?_)
  dsimp only [Token.span]
  rw [characters, String.toList_ofList]
  cases Nth.parse (parts.flatMap Token.text) with
  | none => exact .refuse _
  | some formula => exact .pure ⟨rfl, behind⟩

end

end CheckedReading

end TreeSelectors
