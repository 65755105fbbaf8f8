import TreeSelectors.Selector
import TreeSelectors.Selector.ParseError
import TreeSelectors.Selector.Remark
import TreeSelectors.Token.Lexer

/-!
# Reading selectors

Selectors are read from tokens by descent through lists, chains, compounds and
conditions.  Each reader returns the tokens that it leaves together with the
fact that they are fewer than before, and the argument of a functional
pseudo-class is read with one level of nesting less; so reading ends.

A reader knows the aliases through an `AliasSource`, which may learn while it
is asked.  It keeps the remarks of everything that was read, also if reading
fails later.
-/

namespace TreeSelectors

/-- Where a reader looks up pseudo-classes that abbreviate selectors. -/
structure AliasSource (σ : Type) where
  /-- The selector that an alias stands for; `none` for any other name. -/
  expand : String → StateT σ (Except ParseError) (Option Selector)
  /-- Whether a name is an alias, without expanding it. -/
  isAlias : String → Bool

/-- What a reader has learnt about aliases, and its remarks so far. -/
structure Progress (σ : Type) where
  aliases : σ
  remarks : List Remark

/-- Readings that may fail, and keep their progress when they do. -/
abbrev Reading (σ : Type) := EStateM ParseError (Progress σ)

namespace Reading

def remark (note : Remark) : Reading σ Unit :=
  modify fun progress => { progress with remarks := progress.remarks ++ [note] }

def expand (source : AliasSource σ) (name : String) :
    Reading σ (Option Selector) := fun progress =>
  match (source.expand name).run progress.aliases with
  | .ok (selector, aliases) => .ok selector { progress with aliases }
  | .error failure => .error failure progress

def ofExcept : Except ParseError α → Reading σ α
  | .ok value => pure value
  | .error failure => throw failure

end Reading

namespace Selector.Parser

/-- Tokens left when at least one of some tokens was read. -/
abbrev Fewer (tokens : List Token) :=
  { rest : List Token // rest.length < tokens.length }

/-- Tokens left when any number of some tokens was read. -/
abbrev NoMore (tokens : List Token) :=
  { rest : List Token // rest.length ≤ tokens.length }

/-- The tokens after white space. -/
def skipBlank (tokens : List Token) : NoMore tokens :=
  ⟨tokens.dropWhile (·.kind = .whitespace),
    (List.dropWhile_suffix _).length_le⟩

/-- The tokens after a token of one kind. -/
def accept? (kind : TokenKind) : (tokens : List Token) → Option (Fewer tokens)
  | [] => none
  | token :: rest =>
      if token.kind = kind then some ⟨rest, Nat.lt_succ_self _⟩ else none

/-- A name, if it comes next. -/
def readIdent? : (tokens : List Token) → Option (String × Fewer tokens)
  | [] => none
  | token :: rest =>
      match token.kind with
      | .ident name => some (name, ⟨rest, Nat.lt_succ_self _⟩)
      | _ => none

/-! ## Attribute tests -/

/-- The error inside the brackets that open at an offset. -/
def bracketError (opened : Option Nat) (bracket : Nat) (tokens : List Token) :
    ParseError :=
  match Token.peek tokens with
  | .endOfInput => .unclosedBracket bracket
  | _ => ParseError.atToken opened tokens

/-- The operator that a character in front of an equals sign makes. -/
def operatorOf? : Char → Option AttributeOperator
  | '~' => some .includes
  | '|' => some .dashMatch
  | '^' => some .startsWith
  | '$' => some .endsWith
  | '*' => some .contains
  | _ => none

/-- An operator with a value after it. -/
def readOperator (failure : List Token → ParseError) (tokens : List Token) :
    Except ParseError (AttributeOperator × Fewer tokens) :=
  match tokens with
  | [] => .error (failure [])
  | token :: rest =>
      match token.kind with
      | .delim '=' => .ok (.equals, ⟨rest, Nat.lt_succ_self _⟩)
      | .delim char =>
          match operatorOf? char with
          | none => .error (failure (token :: rest))
          | some operator =>
              match accept? (.delim '=') rest with
              | some ⟨after, fewer⟩ =>
                  .ok (operator, ⟨after, Nat.lt_succ_of_lt fewer⟩)
              | none => .error (failure rest)
      | _ => .error (failure (token :: rest))

/-- The value to compare with, a name or a quoted text. -/
def readValue (failure : List Token → ParseError) (tokens : List Token) :
    Except ParseError (String × Fewer tokens) :=
  match tokens with
  | [] => .error (failure [])
  | token :: rest =>
      match token.kind with
      | .ident value | .string value => .ok (value, ⟨rest, Nat.lt_succ_self _⟩)
      | _ => .error (failure (token :: rest))

/-- A case flag and the white space after it, if one comes next. -/
def readFlag (tokens : List Token) : CaseFlag × NoMore tokens :=
  match readIdent? tokens with
  | some (name, ⟨rest, fewer⟩) =>
      let ⟨after, noMore⟩ := skipBlank rest
      let left : NoMore tokens :=
        ⟨after, Nat.le_of_lt (Nat.lt_of_le_of_lt noMore fewer)⟩
      if Text.sameFolded name "i" then (.insensitive, left)
      else if Text.sameFolded name "s" then (.sensitive, left)
      else (.unstated, ⟨tokens, Nat.le_refl _⟩)
  | none => (.unstated, ⟨tokens, Nat.le_refl _⟩)

/-- What stands between a name and the closing bracket. -/
def readComparison (failure : List Token → ParseError) (name : String)
    (tokens : List Token) :
    Except ParseError (AttributeTest × Fewer tokens) := do
  let (operator, ⟨afterOperator, _⟩) ← readOperator failure tokens
  let ⟨beforeValue, _⟩ := skipBlank afterOperator
  let (value, ⟨afterValue, _⟩) ← readValue failure beforeValue
  let ⟨beforeFlag, _⟩ := skipBlank afterValue
  let (case, ⟨afterFlag, _⟩) := readFlag beforeFlag
  match accept? .rightBracket afterFlag with
  | some ⟨rest, _⟩ =>
      return ({ name, operator, value := some value, case }, ⟨rest, by omega⟩)
  | none => throw (failure afterFlag)

/-- An attribute test whose opening bracket, at the offset `bracket`, was
read. -/
def readAttribute (opened : Option Nat) (bracket : Nat) (tokens : List Token) :
    Except ParseError (AttributeTest × Fewer tokens) := do
  let failure := bracketError opened bracket
  let ⟨beforeName, _⟩ := skipBlank tokens
  let some (name, ⟨afterName, _⟩) := readIdent? beforeName
    | throw (failure beforeName)
  let ⟨beforeOperator, _⟩ := skipBlank afterName
  match accept? .rightBracket beforeOperator with
  | some ⟨rest, _⟩ => return (.present name, ⟨rest, by omega⟩)
  | none =>
      let (test, ⟨rest, _⟩) ← readComparison failure name beforeOperator
      return (test, ⟨rest, by omega⟩)

/-! ## Formulas -/

/-- The tokens that the text of a formula is made of. -/
def isFormulaPart : TokenKind → Bool
  | .ident _ | .delim '+' | .delim '-' | .whitespace => true
  | _ => false

/-- The text up to the closing parenthesis of the function at an offset. -/
def readFormulaText (opened : Option Nat) (opening : Nat) :
    (tokens : List Token) → Except ParseError (List Char × Fewer tokens)
  | [] => throw (.unclosedParen opening)
  | token :: rest => do
      if token.kind = .rightParen then
        return ([], ⟨rest, Nat.lt_succ_self _⟩)
      else if isFormulaPart token.kind then
        let (text, ⟨after, fewer⟩) ← readFormulaText opened opening rest
        return (token.text ++ text, ⟨after, Nat.lt_succ_of_lt fewer⟩)
      else if token.kind = .endOfInput then
        throw (.unclosedParen opening)
      else
        throw (ParseError.atToken opened (token :: rest))

def readFormula (opened : Option Nat) (opening : Nat) (tokens : List Token) :
    Except ParseError (Nth × Fewer tokens) := do
  let (text, rest) ← readFormulaText opened opening tokens
  match Nth.parse text with
  | some formula => return (formula, rest)
  | none => throw (.invalidNth (String.ofList (Text.trim text)))

/-! ## Pseudo-classes and pseudo-elements -/

/-- The reader of the argument of a function: it takes the offset of the
function, whether chains may start with a combinator, and the tokens after the
opening parenthesis, and reads through the closing one. -/
abbrev ArgumentReader (σ : Type) :=
  (opening : Nat) → (relative : Bool) → (tokens : List Token) →
    Reading σ (Selector × Fewer tokens)

/-- What a reader is given: the aliases, the offset of the function whose
argument it is in, and how to read the argument of another one. -/
structure Context (σ : Type) where
  aliases : AliasSource σ
  opened : Option Nat
  argument : ArgumentReader σ

/-- The pseudo-elements that may be written with a single colon. -/
def isLegacyPseudoElement (name : String) : Bool :=
  name ∈ ["before", "after", "first-line", "first-letter"]

def pseudoElement (name : String) : Reading σ Simple := do
  let name := Text.foldCase name
  Reading.remark (.pseudoElement name)
  return .pseudoElement name

/-- The condition that a name after a single colon stands for. -/
def pseudoClass (context : Context σ) (name : String) : Reading σ Simple := do
  let name := Text.foldCase name
  match PlainClass.ofName? name with
  | some plain =>
      if plain.isUserAction then
        Reading.remark (.inert name)
      return .plain plain
  | none =>
      if isLegacyPseudoElement name then
        pseudoElement name
      else if (SelectorFunction.ofName? name).isSome ||
          (Counting.ofName? name).isSome then
        throw (.missingArgument name)
      else
        match ← Reading.expand context.aliases name with
        | some selector => return .functional .is selector
        | none => throw (.unknownPseudoClass name)

/-- The condition that the function at the offset `opening` stands for; the
tokens are those of its argument. -/
def pseudoFunction (context : Context σ) (name : String) (opening : Nat)
    (tokens : List Token) : Reading σ (Simple × Fewer tokens) := do
  let name := Text.foldCase name
  match SelectorFunction.ofName? name with
  | some function =>
      let (selector, rest) ← context.argument opening (function = .has) tokens
      return (.functional function selector, rest)
  | none =>
      match Counting.ofName? name with
      | some counting =>
          let (formula, rest) ←
            Reading.ofExcept (readFormula context.opened opening tokens)
          return (.nth counting formula, rest)
      | none =>
          if (PlainClass.ofName? name).isSome || isLegacyPseudoElement name ||
              context.aliases.isAlias name then
            throw (.unexpectedArgument name)
          else
            throw (.unknownPseudoClass name)

/-- What stands after a colon. -/
def readPseudo (context : Context σ) (tokens : List Token) :
    Reading σ (Simple × Fewer tokens) :=
  match tokens with
  | [] => throw (ParseError.atToken context.opened [])
  | token :: rest =>
      match token.kind with
      | .colon =>
          match readIdent? rest with
          | some (name, ⟨after, fewer⟩) => do
              return (← pseudoElement name, ⟨after, Nat.lt_succ_of_lt fewer⟩)
          | none => throw (ParseError.atToken context.opened rest)
      | .ident name => do
          return (← pseudoClass context name, ⟨rest, Nat.lt_succ_self _⟩)
      | .function name => do
          let (simple, ⟨after, fewer⟩) ←
            pseudoFunction context name token.start rest
          return (simple, ⟨after, Nat.lt_succ_of_lt fewer⟩)
      | _ => throw (ParseError.atToken context.opened (token :: rest))

/-! ## Compounds -/

/-- The name of a class, after its dot. -/
def readClassName (opened : Option Nat) (tokens : List Token) :
    Except ParseError (Simple × Fewer tokens) :=
  match tokens with
  | [] => throw (ParseError.atToken opened [])
  | token :: rest =>
      match token.kind, token.startsWithDigit 0 with
      | .ident name, false => return (.className name, ⟨rest, Nat.lt_succ_self _⟩)
      | _, _ => throw (ParseError.atToken opened (token :: rest))

/-- A condition other than a type, if one starts with the given token. -/
def readCondition? (context : Context σ) (token : Token) (rest : List Token) :
    Reading σ (Option (Simple × NoMore rest)) :=
  match token.kind with
  | .hash name =>
      if token.startsWithDigit 1 then
        throw (ParseError.atToken context.opened (token :: rest))
      else
        return some (.id name, ⟨rest, Nat.le_refl _⟩)
  | .delim '.' => do
      let (simple, ⟨after, fewer⟩) ←
        Reading.ofExcept (readClassName context.opened rest)
      return some (simple, ⟨after, Nat.le_of_lt fewer⟩)
  | .leftBracket => do
      let (test, ⟨after, fewer⟩) ←
        Reading.ofExcept (readAttribute context.opened token.start rest)
      return some (.attribute test, ⟨after, Nat.le_of_lt fewer⟩)
  | .colon => do
      let (simple, ⟨after, fewer⟩) ← readPseudo context rest
      return some (simple, ⟨after, Nat.le_of_lt fewer⟩)
  | _ => return none

/-- The first condition of a compound, which may be a type. -/
def readFirst? (context : Context σ) (token : Token) (rest : List Token) :
    Reading σ (Option (Simple × NoMore rest)) :=
  match token.kind with
  | .ident name =>
      if token.startsWithDigit 0 then
        throw (ParseError.atToken context.opened (token :: rest))
      else
        return some (.type name, ⟨rest, Nat.le_refl _⟩)
  | .delim '*' => return some (.universal, ⟨rest, Nat.le_refl _⟩)
  | _ => readCondition? context token rest

/-- The conditions that follow without a gap. -/
def readConditions (context : Context σ) (tokens : List Token) :
    Reading σ (Compound × NoMore tokens) :=
  match tokens with
  | [] => return ([], ⟨[], Nat.le_refl _⟩)
  | token :: rest => do
      match ← readCondition? context token rest with
      | none => return ([], ⟨token :: rest, Nat.le_refl _⟩)
      | some (simple, ⟨after, _⟩) =>
          let (more, ⟨left, _⟩) ← readConditions context after
          return (simple :: more, ⟨left, by simp only [List.length_cons]; omega⟩)
termination_by tokens.length
decreasing_by
  simp only [List.length_cons]
  omega

/-- A compound has at least one condition. -/
def readCompound (context : Context σ) (tokens : List Token) :
    Reading σ (Compound × Fewer tokens) :=
  match tokens with
  | [] => throw (ParseError.atToken context.opened [])
  | token :: rest => do
      match ← readFirst? context token rest with
      | none => throw (ParseError.atToken context.opened (token :: rest))
      | some (simple, ⟨after, _⟩) =>
          let (more, ⟨left, _⟩) ← readConditions context after
          return (simple :: more, ⟨left, by simp only [List.length_cons]; omega⟩)

/-! ## Chains and lists -/

/-- A combinator with a sign of its own, if one comes next. -/
def readCombinator? : (tokens : List Token) →
    Option (Combinator × Fewer tokens)
  | [] => none
  | token :: rest =>
      match token.kind with
      | .delim '>' => some (.child, ⟨rest, Nat.lt_succ_self _⟩)
      | .delim '+' => some (.nextSibling, ⟨rest, Nat.lt_succ_self _⟩)
      | .delim '~' => some (.laterSibling, ⟨rest, Nat.lt_succ_self _⟩)
      | _ => none

/-- Whether a chain may end in front of some tokens. -/
def endsChain (tokens : List Token) : Bool :=
  match Token.peek tokens with
  | .comma | .rightParen | .endOfInput => true
  | _ => false

/-- The compounds after `subject`, each of which becomes the subject in turn;
`left` holds those in front of it. -/
def readLinks (context : Context σ) (subject : Compound)
    (left : List (Combinator × Compound)) (tokens : List Token) :
    Reading σ ((Compound × List (Combinator × Compound)) × NoMore tokens) := do
  let ⟨start, _⟩ := skipBlank tokens
  match readCombinator? start with
  | some (combinator, ⟨afterSign, _⟩) =>
      let ⟨next, _⟩ := skipBlank afterSign
      let (compound, ⟨rest, _⟩) ← readCompound context next
      let (links, ⟨final, _⟩) ←
        readLinks context compound ((combinator, subject) :: left) rest
      return (links, ⟨final, by omega⟩)
  | none =>
      if endsChain start then
        return ((subject, left), ⟨start, by omega⟩)
      else if start.length < tokens.length then
        let (compound, ⟨rest, _⟩) ← readCompound context start
        let (links, ⟨final, _⟩) ←
          readLinks context compound ((.descendant, subject) :: left) rest
        return (links, ⟨final, by omega⟩)
      else
        throw (ParseError.atToken context.opened start)
termination_by tokens.length

/-- The combinator in front of a chain of a relative selector; descendance is
implied. -/
def readAnchor (relative : Bool) (tokens : List Token) :
    Option Combinator × NoMore tokens :=
  if relative then
    match readCombinator? tokens with
    | some (combinator, ⟨rest, _⟩) =>
        let ⟨start, _⟩ := skipBlank rest
        (some combinator, ⟨start, by omega⟩)
    | none => (some .descendant, skipBlank tokens)
  else
    (none, ⟨tokens, Nat.le_refl _⟩)

def readChain (context : Context σ) (relative : Bool) (tokens : List Token) :
    Reading σ (Chain × Fewer tokens) := do
  let (anchor, ⟨start, _⟩) := readAnchor relative tokens
  let (first, ⟨rest, _⟩) ← readCompound context start
  let ((subject, left), ⟨final, _⟩) ← readLinks context first [] rest
  return (⟨subject, left, anchor⟩, ⟨final, by omega⟩)

/-- Chains with commas between them. -/
def readChains (context : Context σ) (relative : Bool) (tokens : List Token) :
    Reading σ (Selector × Fewer tokens) := do
  let ⟨start, _⟩ := skipBlank tokens
  let (chain, ⟨rest, _⟩) ← readChain context relative start
  let ⟨next, _⟩ := skipBlank rest
  match accept? .comma next with
  | some ⟨afterComma, _⟩ =>
      let (more, ⟨final, _⟩) ← readChains context relative afterComma
      return (chain :: more, ⟨final, by omega⟩)
  | none => return ([chain], ⟨next, by omega⟩)
termination_by tokens.length

/-! ## Arguments and whole texts -/

/-- Reads arguments that nest up to `levels` deep; `limit` is the number that
the error states. -/
def readArgument (aliases : AliasSource σ) (limit : Nat) :
    (levels : Nat) → ArgumentReader σ
  | 0 => fun _ _ _ => throw (.nestingTooDeep limit)
  | levels + 1 => fun opening relative tokens => do
      let context : Context σ :=
        { aliases, opened := some opening,
          argument := readArgument aliases limit levels }
      let (selector, ⟨rest, _⟩) ← readChains context relative tokens
      match accept? .rightParen rest with
      | some ⟨after, _⟩ => return (selector, ⟨after, by omega⟩)
      | none => throw (ParseError.atToken (some opening) rest)

/-- Reads a selector that takes all tokens. -/
def readAll (aliases : AliasSource σ) (maxNesting : Nat)
    (tokens : List Token) : Reading σ Selector := do
  let context : Context σ :=
    { aliases, opened := none,
      argument := readArgument aliases maxNesting maxNesting }
  let start := (skipBlank tokens).val
  if Token.peek start = .endOfInput then
    throw .empty
  let (selector, rest) ← readChains context false start
  if Token.peek rest.val = .endOfInput then
    return selector
  else
    throw (ParseError.atToken none rest.val)

end Selector.Parser

/-- Reads the whole of a text as a selector whose arguments nest no deeper than
`maxNesting`. -/
def Selector.read (aliases : AliasSource σ) (maxNesting : Nat)
    (text : String) : Reading σ Selector :=
  Parser.readAll aliases maxNesting (Token.scan text)

end TreeSelectors
