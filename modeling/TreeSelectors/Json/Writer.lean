import TreeSelectors.Json
import TreeSelectors.Text.Escape

/-!
# Writing JSON texts

A value is written over several lines, one item or member a line, with two
spaces for each level.  Empty arrays and objects take no lines of their own.
-/

namespace TreeSelectors

namespace Json

/-- A hexadecimal digit, with small letters. -/
def hexDigit (value : Nat) : Char :=
  (Nat.toDigits 16 value).headD '0'

/-- A character of a string.  Quotation marks, backslashes and control
characters are escaped. -/
def writeChar (char : Char) : List Char :=
  match char with
  | '"' => ['\\', '"']
  | '\\' => ['\\', '\\']
  | '\x08' => ['\\', 'b']
  | '\x0c' => ['\\', 'f']
  | '\n' => ['\\', 'n']
  | '\r' => ['\\', 'r']
  | '\t' => ['\\', 't']
  | other =>
      if other.toNat < 0x20 then
        ['\\', 'u', '0', '0', hexDigit (other.toNat / 16),
          hexDigit (other.toNat % 16)]
      else
        [other]

def writeString (value : String) : List Char :=
  '"' :: value.toList.flatMap writeChar ++ ['"']

def writeNumeral (numeral : Numeral) : List Char :=
  let sign := if numeral.negative then ['-'] else []
  let fraction :=
    if numeral.fraction.isEmpty then [] else '.' :: numeral.fraction
  let exponent := match numeral.exponent with
    | none => []
    | some (negative, digits) =>
        'e' :: (if negative then '-' :: digits else digits)
  sign ++ numeral.whole ++ fraction ++ exponent

/-- The end of a line and the spaces of the next one. -/
def newLine (level : Nat) : List Char :=
  '\n' :: List.replicate (2 * level) ' '

mutual

/-- A value that starts on a line of a level. -/
def write (level : Nat) : Json → List Char
  | .null => "null".toList
  | .boolean true => "true".toList
  | .boolean false => "false".toList
  | .number numeral => writeNumeral numeral
  | .string value => writeString value
  | .array [] => ['[', ']']
  | .array (item :: rest) =>
      '[' :: newLine (level + 1) ++ item.write (level + 1) ++
        writeItems (level + 1) rest ++ newLine level ++ [']']
  | .object [] => ['\x7b', '\x7d']
  | .object ((name, value) :: rest) =>
      '\x7b' :: newLine (level + 1) ++ writeString name ++ ':' :: ' ' ::
        value.write (level + 1) ++ writeMembers (level + 1) rest ++
          newLine level ++ ['\x7d']

/-- The items after the first one. -/
def writeItems (level : Nat) : List Json → List Char
  | [] => []
  | item :: rest =>
      ',' :: newLine level ++ item.write level ++ writeItems level rest

/-- The members after the first one. -/
def writeMembers (level : Nat) : List (String × Json) → List Char
  | [] => []
  | (name, value) :: rest =>
      ',' :: newLine level ++ writeString name ++ ':' :: ' ' ::
        value.write level ++ writeMembers level rest

end

/-- The text of a value. -/
def pretty (json : Json) : String :=
  String.ofList (json.write 0)

end Json

end TreeSelectors
