import TreeSelectors.Proofs.Selector.Passages
import TreeSelectors.Proofs.Selector.Reading

/-!
# Where tokens break off

A reader sees the tokens one after the other, and nothing behind the one where it stops.
So it reads two lists of tokens alike as long as they have a front in common.  Where one
of them ends behind that front and the other one goes on with a quoted text that is not
closed, a reader that gets there cannot go on: in the one case tokens are lacking, in the
other one the quoted text is at fault.
-/

namespace TreeSelectors

namespace ParseError

/-- The offset that an error states. -/
def position? : ParseError → Option Nat
  | .unexpectedToken _ position | .unclosedParen position
  | .unclosedBracket position | .unterminatedString position => some position
  | _ => none

/-- The tokens ran out where more was needed. -/
def RanOut : ParseError → Prop
  | .unexpectedEnd | .unclosedParen _ | .unclosedBracket _ => True
  | _ => False

/-- The error is about a place in the text. -/
def Located : ParseError → Prop
  | .unexpectedToken _ _ | .unexpectedEnd | .unclosedParen _ | .unclosedBracket _
  | .unterminatedString _ => True
  | _ => False

/-- The error at a token that cannot stand where it stands. -/
def refusing (token : Token) : ParseError :=
  atToken none [token]

theorem atToken_cons {token : Token} (goesOn : token.kind ≠ .endOfInput)
    (opened : Option Nat) (rest : List Token) :
    atToken opened (token :: rest) = refusing token := by
  unfold refusing atToken
  dsimp only
  split
  · exact absurd ‹_› goesOn
  · rfl
  · rfl

theorem position?_refusing {token : Token} (goesOn : token.kind ≠ .endOfInput) :
    (refusing token).position? = some token.start := by
  unfold refusing atToken
  dsimp only
  split
  · exact absurd ‹_› goesOn
  · rfl
  · rfl

theorem not_ranOut_refusing {token : Token} (goesOn : token.kind ≠ .endOfInput) :
    ¬ (refusing token).RanOut := by
  unfold refusing atToken
  dsimp only
  split
  · exact absurd ‹_› goesOn
  · exact id
  · exact id

theorem not_ranOut_of_not_located {failure : ParseError}
    (general : ¬ failure.Located) : ¬ failure.RanOut := by
  intro ranOut
  cases failure <;> first | exact general trivial | exact ranOut

theorem position?_of_not_located {failure : ParseError} (general : ¬ failure.Located) :
    failure.position? = none := by
  cases failure <;> first | rfl | exact absurd trivial general

end ParseError

open Grammar Token

/-- A place where tokens end, or else go on with a quoted text that is not closed. -/
structure Break where
  stop : Token
  bad : Token
  more : List Token
  stops : stop.kind = .endOfInput
  breaks : bad.kind = .badString

attribute [simp] Break.stops Break.breaks

namespace Break

@[simp] theorem atToken_stop (cut : Break) (opened : Option Nat) :
    ParseError.atToken opened [cut.stop] = .atEnd opened := by
  simp [ParseError.atToken]

@[simp] theorem atToken_bad (cut : Break) (opened : Option Nat) :
    ParseError.atToken opened (cut.bad :: cut.more) = .refusing cut.bad :=
  ParseError.atToken_cons (by simp) _ _

@[simp] theorem refusing_bad (cut : Break) :
    ParseError.refusing cut.bad = .unterminatedString cut.bad.start := by
  simp [ParseError.refusing, ParseError.atToken]

@[simp] theorem peek_stop (cut : Break) : Token.peek [cut.stop] = .endOfInput :=
  cut.stops

theorem peek_bad (cut : Break) : Token.peek (cut.bad :: cut.more) ≠ .endOfInput := by
  simp [Token.peek]

variable {α β γ δ : Type} {lacks faults lacksOther faultsOther : ParseError → Prop}
  {arrives : α → Prop} {same : α → β → Prop} {ends : γ → Prop} {alike : γ → δ → Prop}

/-- How a reading of tokens that end at the break ends, beside one of tokens that go on
with the broken text.  Both have read something in front of the break; or the first one
has read everything and arrived at the end, where the second one refuses the broken text;
or the first one lacks something at the end, where the second one refuses the broken text;
or both have met the same fault in front of the break. -/
inductive Outcomes (cut : Break) (lacks faults : ParseError → Prop) (arrives : α → Prop)
    (same : α → β → Prop) : Except ParseError α → Except ParseError β → Prop where
  | read {value : α} {other : β} :
      same value other → Outcomes cut lacks faults arrives same (.ok value) (.ok other)
  | arrived {value : α} :
      arrives value →
      Outcomes cut lacks faults arrives same (.ok value) (.error (.refusing cut.bad))
  | lacking {failure : ParseError} :
      lacks failure →
      Outcomes cut lacks faults arrives same (.error failure) (.error (.refusing cut.bad))
  | faulty {failure : ParseError} :
      faults failure →
      Outcomes cut lacks faults arrives same (.error failure) (.error failure)

namespace Outcomes

variable {cut : Break} {first : Except ParseError α} {second : Except ParseError β}

theorem mono {arrivesOther : α → Prop} {sameOther : α → β → Prop}
    (outcomes : cut.Outcomes lacks faults arrives same first second)
    (lacking : ∀ failure, lacks failure → lacksOther failure)
    (faulty : ∀ failure, faults failure → faultsOther failure)
    (arrived : ∀ value, arrives value → arrivesOther value)
    (read : ∀ value other, same value other → sameOther value other) :
    cut.Outcomes lacksOther faultsOther arrivesOther sameOther first second := by
  cases outcomes with
  | read agrees => exact .read (read _ _ agrees)
  | arrived reached => exact .arrived (arrived _ reached)
  | lacking lacked => exact .lacking (lacking _ lacked)
  | faulty fault => exact .faulty (faulty _ fault)

theorem bind {next : α → Except ParseError γ} {other : β → Except ParseError δ}
    (outcomes : cut.Outcomes lacks faults arrives same first second)
    (continues : ∀ value result, same value result →
      cut.Outcomes lacks faults ends alike (next value) (other result))
    (rests : ∀ value, arrives value →
      cut.Outcomes lacks faults ends alike (next value) (.error (.refusing cut.bad))) :
    cut.Outcomes lacks faults ends alike (first >>= next) (second >>= other) := by
  cases outcomes with
  | read agrees => exact continues _ _ agrees
  | arrived reached => exact rests _ reached
  | lacking lacked => exact .lacking lacked
  | faulty fault => exact .faulty fault

end Outcomes

/-- Both readings have read the same from a segment of the front, and what is left starts
in the same place. -/
inductive Reads (cut : Break) (holds : List Token → Prop) (body : List Token)
    {left right : List Token → Prop} :
    α × { rest // left rest } → α × { rest // right rest } → Prop where
  | intro {segment remaining : List Token} {value : α}
      {fits : left (remaining ++ [cut.stop])}
      {fitsOther : right (remaining ++ cut.bad :: cut.more)} :
      body = segment ++ remaining → holds segment →
      Reads cut holds body (value, ⟨remaining ++ [cut.stop], fits⟩)
        (value, ⟨remaining ++ cut.bad :: cut.more, fitsOther⟩)

end Break

/-! ## What is wrong -/

namespace Grammar

/-- No token is the end of the input. -/
def GoesOn (tokens : List Token) : Prop :=
  ∀ token ∈ tokens, token.kind ≠ .endOfInput

theorem GoesOn.behind {front rest : List Token} (goesOn : GoesOn (front ++ rest)) :
    GoesOn rest :=
  (List.forall_mem_append.mp goesOn).2

theorem GoesOn.tail {token : Token} {rest : List Token} (goesOn : GoesOn (token :: rest)) :
    GoesOn rest :=
  (List.forall_mem_cons.mp goesOn).2

/-- What an error says about the tokens that end too early, if some functions were open
in front of them. -/
inductive Lacks (opened : List Token) : List Token → ParseError → Prop where
  | bracket {front inner : List Token} {bracket : Token} :
      bracket.kind = .leftBracket →
      (∀ token ∈ inner, token.kind ≠ .leftBracket ∧ token.kind ≠ .rightBracket) →
      Lacks opened (front ++ bracket :: inner) (.unclosedBracket bracket.start)
  | argument {body others : List Token} {function : Token} :
      unclosedFrom opened body = function :: others →
      Lacks opened body (.unclosedParen function.start)
  | nothing {body : List Token} :
      unclosedFrom opened body = [] → Lacks opened body .unexpectedEnd

/-- What an error says about some tokens if it comes from one of them, or from a name, a
formula or a limit. -/
inductive Faults (body : List Token) : ParseError → Prop where
  | token {token : Token} : token ∈ body → Faults body (.refusing token)
  | general {failure : ParseError} : ¬ failure.Located → Faults body failure

theorem Lacks.append {opened front body : List Token} {failure : ParseError}
    (lacks : Lacks (unclosedFrom opened front) body failure) :
    Lacks opened (front ++ body) failure := by
  cases lacks with
  | bracket kind inside =>
      rw [← List.append_assoc]
      exact .bracket kind inside
  | argument open_ => exact .argument (by rw [unclosedFrom_append, open_])
  | nothing closed => exact .nothing (by rw [unclosedFrom_append, closed])

theorem Lacks.atEnd {opened body : List Token} :
    Lacks opened body
      (.atEnd ((unclosedFrom opened body).head?.map Token.start)) := by
  cases functions : unclosedFrom opened body with
  | nil => exact .nothing functions
  | cons function others => exact .argument functions

theorem Faults.cons {token : Token} {rest : List Token} {failure : ParseError}
    (faults : Faults rest failure) : Faults (token :: rest) failure := by
  cases faults with
  | token member => exact .token (List.mem_cons_of_mem _ member)
  | general notLocated => exact .general notLocated

theorem Faults.append {front body : List Token} {failure : ParseError}
    (faults : Faults body failure) : Faults (front ++ body) failure := by
  induction front with
  | nil => exact faults
  | cons _ _ induction => exact induction.cons

end Grammar

namespace Selector.Parser

variable {cut : Break} {body segment remaining : List Token}

/-! ## The next token -/

theorem peek_bad_ne (cut : Break) : Token.peek (cut.bad :: cut.more) ≠ .whitespace := by
  simp [Token.peek]

/-- White space is skipped alike in front of the end and of a broken text. -/
theorem exists_skipBlank (cut : Break) (body : List Token) :
    ∃ blank remaining fits fitsOther, body = blank ++ remaining ∧ Blank blank ∧
      skipBlank (body ++ [cut.stop]) = ⟨remaining ++ [cut.stop], fits⟩ ∧
      skipBlank (body ++ cut.bad :: cut.more) =
        ⟨remaining ++ cut.bad :: cut.more, fitsOther⟩ := by
  generalize skipped : (skipBlank body).val = remaining
  obtain ⟨blank, isBlank, split, stops⟩ := skipBlank_val_iff.mp skipped
  subst split
  have starts (tail : List Token) (goesOn : Token.peek tail ≠ .whitespace) :
      Token.peek (remaining ++ tail) ≠ .whitespace := by
    cases remaining with
    | nil => exact goesOn
    | cons token others => exact stops
  refine ⟨blank, remaining, ?_, ?_, rfl, isBlank, ?_, ?_⟩
  · simp
  · simp
  · exact skipBlank_eq_iff.mpr ⟨blank, isBlank, List.append_assoc _ _ _,
      starts _ (by simp [Token.peek])⟩
  · exact skipBlank_eq_iff.mpr ⟨blank, isBlank, List.append_assoc _ _ _,
      starts _ (peek_bad_ne cut)⟩

/-- A token of a kind is accepted alike in front of the end and of a broken text. -/
theorem accept?_cases (kind : TokenKind) (notEnd : kind ≠ .endOfInput)
    (notBroken : kind ≠ .badString) (cut : Break) (body : List Token) :
    (accept? kind (body ++ [cut.stop]) = none ∧
      accept? kind (body ++ cut.bad :: cut.more) = none) ∨
    ∃ token rest fewer fewerOther, body = token :: rest ∧ token.kind = kind ∧
      accept? kind (body ++ [cut.stop]) = some ⟨rest ++ [cut.stop], fewer⟩ ∧
      accept? kind (body ++ cut.bad :: cut.more) =
        some ⟨rest ++ cut.bad :: cut.more, fewerOther⟩ := by
  cases body with
  | nil =>
      left
      simp [accept?, notEnd.symm, notBroken.symm]
  | cons token rest =>
      by_cases same : token.kind = kind
      · right
        refine ⟨token, rest, ?_, ?_, rfl, same, ?_, ?_⟩
        · simp
        · simp
        · exact accept?_eq_some_iff.mpr ⟨token, rfl, same⟩
        · exact accept?_eq_some_iff.mpr ⟨token, rfl, same⟩
      · left
        simp [accept?, same]

/-- A name is read alike in front of the end and of a broken text. -/
theorem readIdent?_cases (cut : Break) (body : List Token) :
    (readIdent? (body ++ [cut.stop]) = none ∧
      readIdent? (body ++ cut.bad :: cut.more) = none) ∨
    ∃ token rest name fewer fewerOther, body = token :: rest ∧
      token.kind = .ident name ∧
      readIdent? (body ++ [cut.stop]) = some (name, ⟨rest ++ [cut.stop], fewer⟩) ∧
      readIdent? (body ++ cut.bad :: cut.more) =
        some (name, ⟨rest ++ cut.bad :: cut.more, fewerOther⟩) := by
  cases body with
  | nil =>
      left
      simp [readIdent?]
  | cons token rest =>
      cases kind : token.kind with
      | ident name =>
          right
          refine ⟨token, rest, name, ?_, ?_, rfl, kind, ?_, ?_⟩
          · simp
          · simp
          · exact readIdent?_eq_some_iff.mpr ⟨token, rfl, kind⟩
          · exact readIdent?_eq_some_iff.mpr ⟨token, rfl, kind⟩
      | _ =>
          left
          simp [readIdent?, kind]

end Selector.Parser

end TreeSelectors
