import TreeSelectors.Text.Escape

/-!
# Names

The names of elements, classes, identifiers and attributes in selector text.
`readName` takes the longest name at the front of a text; `writeName` writes a
name with the escapes that it needs.
-/

namespace TreeSelectors.Text

/-- The characters that stand in a name as they are: ASCII letters and digits,
the underscore, the hyphen and everything beyond ASCII.  A digit may come
first, so that `2n` is a name. -/
def isNamePart (char : Char) : Bool :=
  char.isAlphanum || char = '_' || char = '-' || 128 ≤ char.toNat

/-- Whether a text starts with a character of a name or with an escape.  A
backslash at the end of a line or of the text is no escape. -/
def startsName : List Char → Bool
  | '\\' :: next :: _ => next ≠ '\n'
  | char :: _ => isNamePart char
  | [] => false

/-- The longest name at the front of a text, its escapes resolved, and the text
after it. -/
def readName (text : List Char) : List Char × List Char :=
  match text with
  | [] => ([], [])
  | char :: rest =>
      if isNamePart char then
        let tail := readName rest
        (char :: tail.1, tail.2)
      else if char = '\\' then
        match rest with
        | [] => ([], text)
        | next :: after =>
            if next = '\n' then
              ([], text)
            else
              let tail := readName (readEscape next after).2
              ((readEscape next after).1 :: tail.1, tail.2)
      else
        ([], text)
termination_by text.length
decreasing_by
  · simp
  · have shorter := length_readEscape_le next after
    simp only [List.length_cons]
    omega

/-- A name is read from the front of a text. -/
theorem length_readName_le (text : List Char) :
    (readName text).2.length ≤ text.length := by
  fun_induction readName text with
  | case1 => simp
  | case2 char rest _ tail induction =>
      simp only [List.length_cons]
      exact Nat.le_succ_of_le induction
  | case3 => simp
  | case4 => simp
  | case5 next after _ _ tail induction =>
      have shorter := length_readEscape_le next after
      simp only [List.length_cons]
      exact Nat.le_trans induction (by omega)
  | case6 => simp

/-- A character of a name after its first, escaped if it would end the name. -/
def writeNamePart (char : Char) : List Char :=
  if isNamePart char then [char] else ['\\', char]

/-- A name in selector text.  A digit in front is written by its code point,
and a hyphen that is the whole name is escaped. -/
def writeName : List Char → List Char
  | [] => []
  | first :: rest =>
      let head :=
        if first.isDigit then
          '\\' :: Nat.toDigits 16 first.toNat ++ [' ']
        else if first = '-' && rest.isEmpty then
          ['\\', first]
        else
          writeNamePart first
      head ++ rest.flatMap writeNamePart

end TreeSelectors.Text
