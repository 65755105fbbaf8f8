/-!
# Tokens of selector text

A token is a kind together with the characters that it was read from.  The
characters of all tokens of a text, in order, are the text; a comment belongs
to the token after it.
-/

namespace TreeSelectors

/-- What a token stands for.  Escapes in names and values are resolved. -/
inductive TokenKind where
  | ident (name : String)
  | function (name : String)
  | hash (name : String)
  | string (value : String)
  | badString
  | delim (char : Char)
  | colon
  | comma
  | leftBracket
  | rightBracket
  | leftParen
  | rightParen
  | whitespace
  | endOfInput
deriving DecidableEq, Repr

/-- The words for a token in an error message. -/
def TokenKind.describe : TokenKind → String
  | .ident name => "identifier '" ++ name ++ "'"
  | .function name => "function '" ++ name ++ "('"
  | .hash name => "'#" ++ name ++ "'"
  | .string value => "string \"" ++ value ++ "\""
  | .badString => "unterminated string"
  | .delim char => "'" ++ char.toString ++ "'"
  | .colon => "':'"
  | .comma => "','"
  | .leftBracket => "'['"
  | .rightBracket => "']'"
  | .leftParen => "'('"
  | .rightParen => "')'"
  | .whitespace => "whitespace"
  | .endOfInput => "end of input"

/-- A token, the offset of its first character, and its characters. -/
structure Token where
  kind : TokenKind
  start : Nat
  text : List Char
deriving DecidableEq, Repr

namespace Token

/-- The offset after the last character. -/
def stop (token : Token) : Nat :=
  token.start + token.text.length

/-- Whether the characters from a given one on start with a digit.  Such a text
is a number and no name; a digit that is written as an escape is none. -/
def startsWithDigit (token : Token) (skipped : Nat) : Bool :=
  (token.text.drop skipped).head?.any Char.isDigit

/-- The kind of the first of some tokens; where there is none, the input
ends. -/
def peek : List Token → TokenKind
  | [] => .endOfInput
  | token :: _ => token.kind

end Token

end TreeSelectors
