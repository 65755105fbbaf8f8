import TreeSelectors.Json.Numeral
import TreeSelectors.Text.Escape

/-!
# Reading JSON texts

`Json.parse?` reads a text that holds one value and white space.  Arrays and
objects may stand in each other up to a given depth.  Each reader returns the
characters that it leaves together with the fact that they are fewer.
-/

namespace TreeSelectors

namespace Json

/-- Characters left when at least one was read. -/
abbrev Fewer (text : List Char) :=
  { rest : List Char // rest.length < text.length }

/-- Characters left when any number of them was read. -/
abbrev NoMore (text : List Char) :=
  { rest : List Char // rest.length ≤ text.length }

/-- The white space of JSON. -/
def isSpace (char : Char) : Bool :=
  char = ' ' || char = '\n' || char = '\t' || char = '\r'

def skipSpace (text : List Char) : NoMore text :=
  ⟨text.dropWhile isSpace, (List.dropWhile_suffix _).length_le⟩

/-- The text after a given character. -/
def expect (char : Char) : (text : List Char) → Option (Fewer text)
  | [] => none
  | first :: rest =>
      if first = char then some ⟨rest, Nat.lt_succ_self _⟩ else none

/-- The text after a character and a word. -/
def expectWord : (first : Char) → (word text : List Char) →
    Option (Fewer text)
  | first, [], text => expect first text
  | first, next :: word, text => do
      let ⟨rest, _⟩ ← expect first text
      let ⟨after, _⟩ ← expectWord next word rest
      return ⟨after, by omega⟩

/-! ## Strings -/

/-- The number that four hexadecimal digits stand for. -/
def readHex : (text : List Char) → Option (Nat × Fewer text)
  | first :: second :: third :: fourth :: rest =>
      let digits := [first, second, third, fourth]
      if digits.all Text.isHexDigit then
        some (Text.hexValue digits,
          ⟨rest, by simp only [List.length_cons]; omega⟩)
      else
        none
  | _ => none

/-- The character after `\u`.  A character beyond the first plane is written as
two surrogates; a surrogate without the other one is no character. -/
def readCode (text : List Char) : Option (Char × Fewer text) := do
  let (code, ⟨rest, _⟩) ← readHex text
  if 0xd800 ≤ code ∧ code < 0xdc00 then
    let ⟨afterSlash, _⟩ ← expect '\\' rest
    let ⟨afterMark, _⟩ ← expect 'u' afterSlash
    let (low, ⟨final, _⟩) ← readHex afterMark
    if 0xdc00 ≤ low ∧ low < 0xe000 then
      return (Char.ofNat (0x10000 + (code - 0xd800) * 0x400 + (low - 0xdc00)),
        ⟨final, by omega⟩)
    else
      none
  else if 0xdc00 ≤ code ∧ code < 0xe000 then
    none
  else
    return (Char.ofNat code, ⟨rest, by omega⟩)

/-- The character that a letter after a backslash stands for. -/
def escaped? : Char → Option Char
  | '"' => some '"'
  | '\\' => some '\\'
  | '/' => some '/'
  | 'b' => some '\x08'
  | 'f' => some '\x0c'
  | 'n' => some '\n'
  | 'r' => some '\r'
  | 't' => some '\t'
  | _ => none

/-- The character after a backslash. -/
def readEscaped : (text : List Char) → Option (Char × Fewer text)
  | [] => none
  | first :: rest =>
      if first = 'u' then do
        let (char, ⟨after, fewer⟩) ← readCode rest
        return (char, ⟨after, Nat.lt_succ_of_lt fewer⟩)
      else do
        return (← escaped? first, ⟨rest, Nat.lt_succ_self _⟩)

/-- The characters up to a closing quotation mark.  Control characters have to
be escaped. -/
def readChars (text : List Char) : Option (List Char × Fewer text) :=
  match text with
  | [] => none
  | first :: rest =>
      if first = '"' then
        some ([], ⟨rest, Nat.lt_succ_self _⟩)
      else if first = '\\' then do
        let (char, ⟨after, _⟩) ← readEscaped rest
        let (chars, ⟨final, _⟩) ← readChars after
        return (char :: chars, ⟨final, by simp only [List.length_cons]; omega⟩)
      else if first.toNat < 0x20 then
        none
      else do
        let (chars, ⟨final, _⟩) ← readChars rest
        return (first :: chars, ⟨final, by simp only [List.length_cons]; omega⟩)
termination_by text.length
decreasing_by
  · simp only [List.length_cons]
    omega
  · simp

def readString (text : List Char) : Option (String × Fewer text) := do
  let ⟨start, _⟩ ← expect '"' text
  let (chars, ⟨rest, _⟩) ← readChars start
  return (String.ofList chars, ⟨rest, by omega⟩)

/-! ## Numbers -/

/-- The digits at the front of a text, of which there is at least one. -/
def readDigits (text : List Char) : Option (List Char × Fewer text) :=
  match text with
  | [] => none
  | first :: rest =>
      if first.isDigit then
        some (first :: rest.takeWhile Char.isDigit,
          ⟨rest.dropWhile Char.isDigit,
            Nat.lt_succ_of_le (List.dropWhile_suffix _).length_le⟩)
      else
        none

/-- The digits after a point, if there is one. -/
def readFraction (text : List Char) : Option (List Char × NoMore text) :=
  match expect '.' text with
  | none => some ([], ⟨text, Nat.le_refl _⟩)
  | some ⟨rest, _⟩ => do
      let (digits, ⟨after, _⟩) ← readDigits rest
      return (digits, ⟨after, by omega⟩)

/-- A sign in front of the digits of an exponent; `true` is a minus sign. -/
def readSign (text : List Char) : Bool × NoMore text :=
  match expect '-' text, expect '+' text with
  | some ⟨rest, fewer⟩, _ => (true, ⟨rest, Nat.le_of_lt fewer⟩)
  | none, some ⟨rest, fewer⟩ => (false, ⟨rest, Nat.le_of_lt fewer⟩)
  | none, none => (false, ⟨text, Nat.le_refl _⟩)

/-- The exponent, if there is one. -/
def readExponent (text : List Char) :
    Option (Option (Bool × List Char) × NoMore text) :=
  match (expect 'e' text).or (expect 'E' text) with
  | none => some (none, ⟨text, Nat.le_refl _⟩)
  | some ⟨rest, _⟩ => do
      let (negative, ⟨start, _⟩) := readSign rest
      let (digits, ⟨after, _⟩) ← readDigits start
      return (some (negative, digits), ⟨after, by omega⟩)

/-- A number.  It has no superfluous zero in front, and it is not too large. -/
def readNumeral (text : List Char) : Option (Numeral × Fewer text) := do
  let (negative, ⟨start, _⟩) : Bool × NoMore text := match expect '-' text with
    | some ⟨rest, fewer⟩ => (true, ⟨rest, Nat.le_of_lt fewer⟩)
    | none => (false, ⟨text, Nat.le_refl _⟩)
  let (whole, ⟨afterWhole, _⟩) ← readDigits start
  if whole.head? = some '0' ∧ whole ≠ ['0'] then
    none
  let (fraction, ⟨afterFraction, _⟩) ← readFraction afterWhole
  let (exponent, ⟨rest, _⟩) ← readExponent afterFraction
  let numeral : Numeral := { negative, whole, fraction, exponent }
  if numeral.fitsDouble then
    return (numeral, ⟨rest, by omega⟩)
  else
    none

/-! ## Arrays, objects and values -/

/-- A value that is written as a word, if one comes next. -/
def readWord? (text : List Char) : Option (Json × Fewer text) :=
  match expectWord 'n' ['u', 'l', 'l'] text,
      expectWord 't' ['r', 'u', 'e'] text,
      expectWord 'f' ['a', 'l', 's', 'e'] text with
  | some rest, _, _ => some (.null, rest)
  | none, some rest, _ => some (.boolean true, rest)
  | none, none, some rest => some (.boolean false, rest)
  | none, none, none => none

/-- Readers of a value and of the white space in front of it. -/
abbrev ValueReader :=
  (text : List Char) → Option (Json × Fewer text)

/-- The items after the first one, each behind a comma, through the closing
bracket. -/
def readItems (value : ValueReader) (text : List Char) :
    Option (List Json × Fewer text) := do
  let ⟨start, _⟩ := skipSpace text
  match expect ']' start with
  | some ⟨rest, _⟩ => return ([], ⟨rest, by omega⟩)
  | none =>
      let ⟨afterComma, _⟩ ← expect ',' start
      let (item, ⟨afterItem, _⟩) ← value afterComma
      let (items, ⟨rest, _⟩) ← readItems value afterItem
      return (item :: items, ⟨rest, by omega⟩)
termination_by text.length

/-- The items of an array whose opening bracket was read. -/
def readArray (value : ValueReader) (text : List Char) :
    Option (List Json × Fewer text) := do
  let ⟨start, _⟩ := skipSpace text
  match expect ']' start with
  | some ⟨rest, _⟩ => return ([], ⟨rest, by omega⟩)
  | none =>
      let (item, ⟨afterItem, _⟩) ← value start
      let (items, ⟨rest, _⟩) ← readItems value afterItem
      return (item :: items, ⟨rest, by omega⟩)

/-- A name, a colon and a value, with white space in front of each. -/
def readMember (value : ValueReader) (text : List Char) :
    Option ((String × Json) × Fewer text) := do
  let ⟨start, _⟩ := skipSpace text
  let (name, ⟨afterName, _⟩) ← readString start
  let ⟨beforeColon, _⟩ := skipSpace afterName
  let ⟨afterColon, _⟩ ← expect ':' beforeColon
  let (json, ⟨rest, _⟩) ← value afterColon
  return ((name, json), ⟨rest, by omega⟩)

/-- The members after the first one, each behind a comma, through the closing
brace. -/
def readMembers (value : ValueReader) (text : List Char) :
    Option (List (String × Json) × Fewer text) := do
  let ⟨start, _⟩ := skipSpace text
  match expect '\x7d' start with
  | some ⟨rest, _⟩ => return ([], ⟨rest, by omega⟩)
  | none =>
      let ⟨afterComma, _⟩ ← expect ',' start
      let (member, ⟨afterMember, _⟩) ← readMember value afterComma
      let (members, ⟨rest, _⟩) ← readMembers value afterMember
      return (member :: members, ⟨rest, by omega⟩)
termination_by text.length

/-- The members of an object whose opening brace was read. -/
def readObject (value : ValueReader) (text : List Char) :
    Option (List (String × Json) × Fewer text) := do
  let ⟨start, _⟩ := skipSpace text
  match expect '\x7d' start with
  | some ⟨rest, _⟩ => return ([], ⟨rest, by omega⟩)
  | none =>
      let (member, ⟨afterMember, _⟩) ← readMember value start
      let (members, ⟨rest, _⟩) ← readMembers value afterMember
      return (member :: members, ⟨rest, by omega⟩)

/-- A value and the white space in front of it.  Arrays and objects are read by
the readers for what stands in brackets and in braces. -/
def readWith (array : (text : List Char) → Option (List Json × Fewer text))
    (object : (text : List Char) → Option (List (String × Json) × Fewer text)) :
    ValueReader := fun text => do
  let ⟨start, _⟩ := skipSpace text
  match expect '[' start, expect '\x7b' start, expect '"' start with
  | some ⟨inner, _⟩, _, _ =>
      let (items, ⟨rest, _⟩) ← array inner
      return (.array items, ⟨rest, by omega⟩)
  | none, some ⟨inner, _⟩, _ =>
      let (members, ⟨rest, _⟩) ← object inner
      return (.object members, ⟨rest, by omega⟩)
  | none, none, some ⟨inner, _⟩ =>
      let (chars, ⟨rest, _⟩) ← readChars inner
      return (.string (String.ofList chars), ⟨rest, by omega⟩)
  | none, none, none =>
      match readWord? start with
      | some (json, ⟨rest, _⟩) => return (json, ⟨rest, by omega⟩)
      | none =>
          let (numeral, ⟨rest, _⟩) ← readNumeral start
          return (.number numeral, ⟨rest, by omega⟩)

/-- Reads a value whose arrays and objects stand in each other up to a given
depth. -/
def readValue : (depth : Nat) → ValueReader
  | 0 => readWith (fun _ => none) (fun _ => none)
  | depth + 1 =>
      readWith (readArray (readValue depth)) (readObject (readValue depth))

/-- Reads a whole text as one value. -/
def parse? (maxDepth : Nat) (text : String) : Option Json := do
  let (json, ⟨rest, _⟩) ← readValue maxDepth text.toList
  if (skipSpace rest).val.isEmpty then
    return json
  else
    none

end Json

end TreeSelectors
