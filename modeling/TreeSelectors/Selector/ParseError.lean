import TreeSelectors.Token

/-!
# Errors of selector text

The ways in which a text can fail to be a selector.  Positions are offsets of
characters.
-/

namespace TreeSelectors

inductive ParseError where
  /-- The text has no tokens but white space. -/
  | empty
  /-- A token that cannot stand where it stands. -/
  | unexpectedToken (found : TokenKind) (position : Nat)
  /-- The text ends outside of any parenthesis, and more was needed. -/
  | unexpectedEnd
  /-- The text ends inside the argument of the function at a position. -/
  | unclosedParen (position : Nat)
  /-- The text ends inside the brackets that open at a position. -/
  | unclosedBracket (position : Nat)
  /-- A quoted value that the end of the line or of the text cuts off. -/
  | unterminatedString (position : Nat)
  /-- A pseudo-class that is neither built in nor an alias. -/
  | unknownPseudoClass (name : String)
  /-- An argument after a pseudo-class that takes none. -/
  | unexpectedArgument (name : String)
  /-- A pseudo-class that needs an argument and has none. -/
  | missingArgument (name : String)
  /-- The argument of a positional pseudo-class that is no formula. -/
  | invalidNth (text : String)
  /-- Aliases that stand for each other in a circle, or too deep. -/
  | aliasCycle (chain : List String)
  /-- More arguments inside each other than the limit allows. -/
  | nestingTooDeep (limit : Nat)
deriving DecidableEq, Repr

namespace ParseError

def message : ParseError → String
  | .empty => "empty selector"
  | .unexpectedToken found position =>
      "unexpected " ++ found.describe ++ " at position " ++ toString position
  | .unexpectedEnd => "unexpected end of selector"
  | .unclosedParen position =>
      "missing ')' for the group opened at position " ++ toString position
  | .unclosedBracket position =>
      "missing ']' for the attribute selector opened at position " ++
        toString position
  | .unterminatedString position =>
      "unterminated string at position " ++ toString position
  | .unknownPseudoClass name => "unknown pseudo-class ':" ++ name ++ "'"
  | .unexpectedArgument name =>
      "pseudo-class ':" ++ name ++ "' does not take an argument"
  | .missingArgument name =>
      "pseudo-class ':" ++ name ++ "' requires an argument"
  | .invalidNth text => "invalid An+B expression '" ++ text ++ "'"
  | .aliasCycle chain =>
      "alias expansion cycle: " ++ String.intercalate " -> " chain
  | .nestingTooDeep limit =>
      "selector nesting exceeds the limit of " ++ toString limit

/-- The error where the text ends, inside the argument of the function at the
offset `opened`, if there is one. -/
def atEnd : (opened : Option Nat) → ParseError
  | some position => .unclosedParen position
  | none => .unexpectedEnd

/-- The error of a reader that cannot go on with some tokens. -/
def atToken (opened : Option Nat) : List Token → ParseError
  | [] => atEnd opened
  | token :: _ =>
      match token.kind with
      | .endOfInput => atEnd opened
      | .badString => .unterminatedString token.start
      | found => .unexpectedToken found token.start

end ParseError

end TreeSelectors
