import TreeSelectors.Text.Ascii

/-!
# Escapes

A backslash in front of a character takes away its meaning in selector text,
and a backslash in front of up to six hexadecimal digits stands for the
character with that code point.  `readEscape` reads what follows the
backslash.
-/

namespace TreeSelectors.Text

/-- The decimal or hexadecimal digits of ASCII. -/
def isHexDigit (char : Char) : Bool :=
  char.isDigit || ('a' ≤ char && char ≤ 'f') || ('A' ≤ char && char ≤ 'F')

/-- The value of a hexadecimal digit. -/
def hexDigitValue (char : Char) : Nat :=
  if char.isDigit then char.toNat - '0'.toNat
  else char.toLower.toNat - 'a'.toNat + 10

/-- The value of a run of hexadecimal digits. -/
def hexValue (digits : List Char) : Nat :=
  digits.foldl (fun value digit => 16 * value + hexDigitValue digit) 0

/-- The character with a code point.  The null character and numbers that are
no character become the replacement character. -/
def charOfCode (code : Nat) : Char :=
  if code ≠ 0 ∧ code.isValidChar then Char.ofNat code else '\ufffd'

/-- Splits off the hexadecimal digits at the front, up to a given number. -/
def splitHexDigits : Nat → List Char → List Char × List Char
  | limit + 1, char :: rest =>
      if isHexDigit char then
        let split := splitHexDigits limit rest
        (char :: split.1, split.2)
      else
        ([], char :: rest)
  | _, text => ([], text)

/-- The text without one blank at its front. -/
def dropBlank : List Char → List Char
  | [] => []
  | char :: rest => if isBlank char then rest else char :: rest

/-- Reads an escape whose backslash stands in front of `char` and `rest`.  One
blank after hexadecimal digits belongs to the escape. -/
def readEscape (char : Char) (rest : List Char) : Char × List Char :=
  if isHexDigit char then
    let split := splitHexDigits 5 rest
    (charOfCode (hexValue (char :: split.1)), dropBlank split.2)
  else
    (char, rest)

theorem length_splitHexDigits_le (limit : Nat) (text : List Char) :
    (splitHexDigits limit text).2.length ≤ text.length := by
  induction limit generalizing text with
  | zero => cases text <;> simp [splitHexDigits]
  | succ limit induction =>
      cases text with
      | nil => simp [splitHexDigits]
      | cons char rest =>
          have shorter := induction rest
          simp only [splitHexDigits]
          split
          · simp only [List.length_cons]
            omega
          · simp

theorem length_dropBlank_le (text : List Char) :
    (dropBlank text).length ≤ text.length := by
  cases text with
  | nil => simp [dropBlank]
  | cons char rest =>
      simp only [dropBlank]
      split <;> simp

/-- An escape takes nothing back. -/
theorem length_readEscape_le (char : Char) (rest : List Char) :
    (readEscape char rest).2.length ≤ rest.length := by
  unfold readEscape
  split
  · exact Nat.le_trans (length_dropBlank_le _) (length_splitHexDigits_le 5 rest)
  · simp

end TreeSelectors.Text
