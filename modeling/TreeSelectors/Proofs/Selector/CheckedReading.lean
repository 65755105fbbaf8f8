import TreeSelectors.Selector.Parser

/-!
# Reading by positions

A second way to read a selector keeps its tokens in a row, without their characters, and
remembers the position of the token to look at next.  Characters are taken from the text
between two offsets.  Whoever reads like this can go wrong where no text does: the
position may be behind the last token, the offsets may be out of order or behind the end
of the text, and a loop may take more rounds than there are tokens.  Here all of that is
checked, and is an end of its own.

The readers follow those of `Selector.Parser` one by one.
-/

namespace TreeSelectors

/-- A token by its kind and its place in the text. -/
structure Span where
  kind : TokenKind
  start : Nat
  stop : Nat

def Token.span (token : Token) : Span :=
  ⟨token.kind, token.start, token.stop⟩

/-- A text and the places of its tokens. -/
structure Page where
  text : String
  spans : List Span

def Page.ofText (text : String) : Page :=
  ⟨text, (Token.scan text).map Token.span⟩

/-- Why a checked reading ends early. -/
inductive Halt where
  /-- The text is refused. -/
  | refused (failure : ParseError)
  /-- There is no such token, or there are no such characters. -/
  | outOfBounds
  /-- A loop took more rounds than there are tokens. -/
  | endless

/-- The position of the token to look at next, and the progress so far. -/
structure Cursor (σ : Type) where
  position : Nat
  progress : Progress σ

abbrev CheckedReading (σ : Type) := EStateM Halt (Cursor σ)

namespace CheckedReading

variable {σ α : Type}

/-- A reading that looks at no tokens. -/
def of (reading : Reading σ α) : CheckedReading σ α := fun cursor =>
  match reading cursor.progress with
  | .ok value progress => .ok value { cursor with progress }
  | .error failure progress => .error (.refused failure) { cursor with progress }

def refuse (failure : ParseError) : CheckedReading σ α :=
  throw (.refused failure)

/-! ## Looking at the page -/

variable (page : Page)

/-- The token at the cursor. -/
def current : CheckedReading σ Span := do
  match page.spans[(← get).position]? with
  | some span => return span
  | none => throw .outOfBounds

def peek : CheckedReading σ TokenKind :=
  return (← current page).kind

/-- Goes on to the next token, unless the input ends. -/
def advance : CheckedReading σ Unit := do
  if (← peek page) ≠ .endOfInput then
    modify fun cursor => { cursor with position := cursor.position + 1 }

/-- The characters between two offsets. -/
def source (start stop : Nat) : CheckedReading σ String := do
  if start ≤ stop ∧ stop ≤ page.text.length then
    return Token.source page.text start stop
  else
    throw .outOfBounds

/-- Whether the characters between two offsets start with a digit. -/
def startsWithDigit (start stop : Nat) : CheckedReading σ Bool :=
  return (← source page start stop).toList.head?.any Char.isDigit

/-- Refuses the token at the cursor, inside the argument of the function at the offset
`opened`, if there is one. -/
def refuseHere (opened : Option Nat) : CheckedReading σ α := do
  let span ← current page
  match span.kind with
  | .endOfInput => refuse (.atEnd opened)
  | .badString => refuse (.unterminatedString span.start)
  | found => refuse (.unexpectedToken found span.start)

/-- A bound on the rounds of a loop that looks at a token in each round. -/
def rounds : Nat :=
  page.spans.length

/-- Leaves out white space in at most so many rounds, and tells whether there was any. -/
def skipBlankWithin : (rounds : Nat) → CheckedReading σ Bool
  | 0 => throw .endless
  | rounds + 1 => do
      if (← peek page) = .whitespace then
        advance page
        let _ ← skipBlankWithin rounds
        return true
      else
        return false

def skipBlank : CheckedReading σ Bool :=
  skipBlankWithin page (rounds page)

/-! ## Attribute tests -/

def refuseInBrackets (opened : Option Nat) (bracket : Nat) : CheckedReading σ α := do
  if (← peek page) = .endOfInput then
    refuse (.unclosedBracket bracket)
  else
    refuseHere page opened

def readOperator (opened : Option Nat) (bracket : Nat) :
    CheckedReading σ AttributeOperator := do
  match ← peek page with
  | .delim '=' =>
      advance page
      return .equals
  | .delim char =>
      match Selector.Parser.operatorOf? char with
      | none => refuseInBrackets page opened bracket
      | some operator =>
          advance page
          if (← peek page) = .delim '=' then
            advance page
            return operator
          else
            refuseInBrackets page opened bracket
  | _ => refuseInBrackets page opened bracket

def readValue (opened : Option Nat) (bracket : Nat) : CheckedReading σ String := do
  match ← peek page with
  | .ident value | .string value =>
      advance page
      return value
  | _ => refuseInBrackets page opened bracket

def readFlag : CheckedReading σ CaseFlag := do
  match ← peek page with
  | .ident name =>
      if Text.sameFolded name "i" then
        advance page
        let _ ← skipBlank page
        return .insensitive
      else if Text.sameFolded name "s" then
        advance page
        let _ ← skipBlank page
        return .sensitive
      else
        return .unstated
  | _ => return .unstated

def readComparison (opened : Option Nat) (bracket : Nat) (name : String) :
    CheckedReading σ AttributeTest := do
  let operator ← readOperator page opened bracket
  let _ ← skipBlank page
  let value ← readValue page opened bracket
  let _ ← skipBlank page
  let case ← readFlag page
  if (← peek page) = .rightBracket then
    advance page
    return { name, operator, value := some value, case }
  else
    refuseInBrackets page opened bracket

/-- An attribute test whose opening bracket, at the offset `bracket`, was read. -/
def readAttribute (opened : Option Nat) (bracket : Nat) :
    CheckedReading σ AttributeTest := do
  let _ ← skipBlank page
  match ← peek page with
  | .ident name =>
      advance page
      let _ ← skipBlank page
      if (← peek page) = .rightBracket then
        advance page
        return .present name
      else
        readComparison page opened bracket name
  | _ => refuseInBrackets page opened bracket

/-! ## Formulas -/

/-- Goes through the parts of a formula in at most so many rounds, and tells where the
last of them stops; `stop` is where the one in front stops. -/
def skipFormulaWithin (opened : Option Nat) (opening : Nat) :
    (rounds stop : Nat) → CheckedReading σ Nat
  | 0, _ => throw .endless
  | rounds + 1, stop => do
      let span ← current page
      if span.kind = .rightParen then
        return stop
      else if Selector.Parser.isFormulaPart span.kind then
        advance page
        skipFormulaWithin opened opening rounds span.stop
      else if span.kind = .endOfInput then
        refuse (.unclosedParen opening)
      else
        refuseHere page opened

def readFormula (opened : Option Nat) (opening : Nat) : CheckedReading σ Nth := do
  let start := (← current page).start
  let stop ← skipFormulaWithin page opened opening (rounds page) start
  advance page
  let text := (← source page start stop).toList
  match Nth.parse text with
  | some formula => return formula
  | none => refuse (.invalidNth (String.ofList (Text.trim text)))

end CheckedReading

/-! ## Pseudo-classes and pseudo-elements -/

/-- What a checked reader is given: the page and the aliases, the offset of the function
whose argument it is in, and how to read the argument of another one. -/
structure CheckedContext (σ : Type) where
  page : Page
  aliases : AliasSource σ
  opened : Option Nat
  argument : (opening : Nat) → (relative : Bool) → CheckedReading σ Selector

namespace CheckedReading

variable {σ : Type} (context : CheckedContext σ)

/-- The condition that a name after a single colon stands for.  No argument is read. -/
def pseudoClass (name : String) : CheckedReading σ Simple :=
  of (Selector.Parser.pseudoClass
    ⟨context.aliases, context.opened, fun _ _ _ => throw .empty⟩ name)

def pseudoFunction (name : String) (opening : Nat) : CheckedReading σ Simple := do
  let name := Text.foldCase name
  match SelectorFunction.ofName? name with
  | some function =>
      return .functional function (← context.argument opening (function = .has))
  | none =>
      match Counting.ofName? name with
      | some counting =>
          return .nth counting (← readFormula context.page context.opened opening)
      | none =>
          if (PlainClass.ofName? name).isSome ||
              Selector.Parser.isLegacyPseudoElement name ||
              context.aliases.isAlias name then
            refuse (.unexpectedArgument name)
          else
            refuse (.unknownPseudoClass name)

/-- What stands after a colon. -/
def readPseudo : CheckedReading σ Simple := do
  let span ← current context.page
  match span.kind with
  | .colon =>
      advance context.page
      match ← peek context.page with
      | .ident name =>
          advance context.page
          of (Selector.Parser.pseudoElement name)
      | _ => refuseHere context.page context.opened
  | .ident name =>
      advance context.page
      pseudoClass context name
  | .function name =>
      advance context.page
      pseudoFunction context name span.start
  | _ => refuseHere context.page context.opened

/-! ## Compounds -/

/-- The name of a class, after its dot. -/
def readClassName : CheckedReading σ Simple := do
  let span ← current context.page
  let numeric ← startsWithDigit context.page span.start span.stop
  match span.kind, numeric with
  | .ident name, false =>
      advance context.page
      return .className name
  | _, _ => refuseHere context.page context.opened

/-- A condition other than a type, if one starts here. -/
def readCondition? : CheckedReading σ (Option Simple) := do
  let span ← current context.page
  match span.kind with
  | .hash name =>
      if ← startsWithDigit context.page (span.start + 1) span.stop then
        refuseHere context.page context.opened
      else
        advance context.page
        return some (.id name)
  | .delim '.' =>
      advance context.page
      return some (← readClassName context)
  | .leftBracket =>
      advance context.page
      return some (.attribute (← readAttribute context.page context.opened span.start))
  | .colon =>
      advance context.page
      return some (← readPseudo context)
  | _ => return none

/-- The first condition of a compound, which may be a type. -/
def readFirst? : CheckedReading σ (Option Simple) := do
  let span ← current context.page
  match span.kind with
  | .ident name =>
      if ← startsWithDigit context.page span.start span.stop then
        refuseHere context.page context.opened
      else
        advance context.page
        return some (.type name)
  | .delim '*' =>
      advance context.page
      return some .universal
  | _ => readCondition? context

/-- The conditions that follow without a gap. -/
def readConditionsWithin : (rounds : Nat) → CheckedReading σ Compound
  | 0 => throw .endless
  | rounds + 1 => do
      match ← readCondition? context with
      | none => return []
      | some simple => return simple :: (← readConditionsWithin rounds)

def readCompound : CheckedReading σ Compound := do
  match ← readFirst? context with
  | none => refuseHere context.page context.opened
  | some simple =>
      return simple :: (← readConditionsWithin context (rounds context.page))

/-! ## Chains and lists -/

/-- A combinator with a sign of its own, if one comes next. -/
def readCombinator? : CheckedReading σ (Option Combinator) := do
  match ← peek context.page with
  | .delim '>' =>
      advance context.page
      return some .child
  | .delim '+' =>
      advance context.page
      return some .nextSibling
  | .delim '~' =>
      advance context.page
      return some .laterSibling
  | _ => return none

/-- Whether a chain may end in front of a token. -/
def endsChain : TokenKind → Bool
  | .comma | .rightParen | .endOfInput => true
  | _ => false

/-- The compounds after `subject`, each of which becomes the subject in turn; `left`
holds those in front of it. -/
def readLinksWithin : (rounds : Nat) → (subject : Compound) →
    (left : List (Combinator × Compound)) →
    CheckedReading σ (Compound × List (Combinator × Compound))
  | 0, _, _ => throw .endless
  | rounds + 1, subject, left => do
      let gap ← skipBlank context.page
      match ← readCombinator? context with
      | some combinator =>
          let _ ← skipBlank context.page
          let compound ← readCompound context
          readLinksWithin rounds compound ((combinator, subject) :: left)
      | none =>
          if endsChain (← peek context.page) then
            return (subject, left)
          else if gap then
            let compound ← readCompound context
            readLinksWithin rounds compound ((.descendant, subject) :: left)
          else
            refuseHere context.page context.opened

/-- The combinator in front of a chain of a relative selector; descendance is implied. -/
def readAnchor (relative : Bool) : CheckedReading σ (Option Combinator) := do
  if relative then
    let combinator ← readCombinator? context
    let _ ← skipBlank context.page
    return some (combinator.getD .descendant)
  else
    return none

def readChain (relative : Bool) : CheckedReading σ Chain := do
  let anchor ← readAnchor context relative
  let first ← readCompound context
  let (subject, left) ← readLinksWithin context (rounds context.page) first []
  return ⟨subject, left, anchor⟩

/-- Chains with commas between them. -/
def readChainsWithin (relative : Bool) : (rounds : Nat) → CheckedReading σ Selector
  | 0 => throw .endless
  | rounds + 1 => do
      let _ ← skipBlank context.page
      let chain ← readChain context relative
      let _ ← skipBlank context.page
      if (← peek context.page) = .comma then
        advance context.page
        return chain :: (← readChainsWithin relative rounds)
      else
        return [chain]

def readChains (relative : Bool) : CheckedReading σ Selector :=
  readChainsWithin context relative (rounds context.page)

/-! ## Arguments and whole texts -/

/-- Reads arguments that nest up to `levels` deep; `limit` is the number that the error
states. -/
def readArgument (page : Page) (aliases : AliasSource σ) (limit : Nat) :
    (levels opening : Nat) → (relative : Bool) → CheckedReading σ Selector
  | 0, _, _ => refuse (.nestingTooDeep limit)
  | levels + 1, opening, relative => do
      let context : CheckedContext σ :=
        { page, aliases, opened := some opening,
          argument := readArgument page aliases limit levels }
      let selector ← readChains context relative
      if (← peek page) = .rightParen then
        advance page
        return selector
      else
        refuseHere page (some opening)

/-- Reads a selector that takes all tokens. -/
def readAll (page : Page) (aliases : AliasSource σ) (maxNesting : Nat) :
    CheckedReading σ Selector := do
  let context : CheckedContext σ :=
    { page, aliases, opened := none,
      argument := readArgument page aliases maxNesting maxNesting }
  let _ ← skipBlank page
  if (← peek page) = .endOfInput then
    refuse .empty
  else
    let selector ← readChains context false
    if (← peek page) = .endOfInput then
      return selector
    else
      refuseHere page none

end CheckedReading

/-- Reads the whole of a text by positions, from the first token on. -/
def Selector.readChecked {σ : Type} (aliases : AliasSource σ) (maxNesting : Nat)
    (text : String) : EStateM Halt (Progress σ) Selector := fun progress =>
  match CheckedReading.readAll (.ofText text) aliases maxNesting ⟨0, progress⟩ with
  | .ok selector cursor => .ok selector cursor.progress
  | .error halt cursor => .error halt cursor.progress

end TreeSelectors
