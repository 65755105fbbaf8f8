import TreeSelectors.Text.Name
import TreeSelectors.Text.Quoted
import TreeSelectors.Token

/-!
# Reading tokens

`Token.scan` splits a text into tokens.  Every text has a token list; it ends
with the only `endOfInput` token.
-/

namespace TreeSelectors

namespace Token

/-- The text after the end of the comment that it starts in.  A comment that is
not closed takes the rest of the text. -/
def afterComment : List Char → List Char
  | '*' :: '/' :: rest => rest
  | _ :: rest => afterComment rest
  | [] => []

theorem length_afterComment_le (text : List Char) :
    (afterComment text).length ≤ text.length := by
  fun_induction afterComment text with
  | case1 rest =>
      simp only [List.length_cons]
      omega
  | case2 _ _ _ induction =>
      simp only [List.length_cons]
      exact Nat.le_succ_of_le induction
  | case3 => simp

/-- The text without the comments at its front. -/
def skipComments (text : List Char) : List Char :=
  match text with
  | '/' :: '*' :: rest => skipComments (afterComment rest)
  | other => other
termination_by text.length
decreasing_by
  have shorter := length_afterComment_le rest
  simp only [List.length_cons]
  omega

theorem length_skipComments_le (text : List Char) :
    (skipComments text).length ≤ text.length := by
  fun_induction skipComments text with
  | case1 rest induction =>
      have shorter := length_afterComment_le rest
      simp only [List.length_cons]
      omega
  | case2 => simp

/-- A name, or a function if an opening parenthesis follows the name. -/
def readNamed (text : List Char) : TokenKind × List Char :=
  match Text.readName text with
  | (name, '(' :: rest) => (.function (String.ofList name), rest)
  | (name, rest) => (.ident (String.ofList name), rest)

theorem length_readNamed_le (text : List Char) :
    (readNamed text).2.length ≤ (Text.readName text).2.length := by
  unfold readNamed
  split
  · rename_i read
    rw [read]
    exact Nat.le_succ _
  · rename_i read
    exact Nat.le_of_eq (by rw [read])

/-- The kinds that a single character stands for. -/
def punctuation? : Char → Option TokenKind
  | '(' => some .leftParen
  | ')' => some .rightParen
  | ',' => some .comma
  | ':' => some .colon
  | '[' => some .leftBracket
  | ']' => some .rightBracket
  | _ => none

/-- The kind of the token that starts with `char`, and the text after the
token. -/
def readKind (char : Char) (rest : List Char) : TokenKind × List Char :=
  if Text.isBlank char then
    (.whitespace, rest.dropWhile Text.isBlank)
  else if char = '"' || char = '\'' then
    match Text.readQuoted char rest with
    | (some value, after) => (.string (String.ofList value), after)
    | (none, after) => (.badString, after)
  else if char = '#' && Text.startsName rest then
    let name := Text.readName rest
    (.hash (String.ofList name.1), name.2)
  else if Text.startsName (char :: rest) then
    readNamed (char :: rest)
  else
    match punctuation? char with
    | some kind => (kind, rest)
    | none => (.delim char, rest)

theorem readName_shortens {text : List Char} (starts : Text.startsName text) :
    (Text.readName text).2.length < text.length := by
  unfold Text.startsName at starts
  split at starts
  · rename_i next after
    have differs : next ≠ '\n' := by simpa using starts
    have backslash : Text.isNamePart '\\' = false := by decide
    rw [Text.readName.eq_def]
    simp only [backslash, Bool.false_eq_true, if_false, if_true, differs]
    have first := Text.length_readName_le (Text.readEscape next after).2
    have second := Text.length_readEscape_le next after
    simp only [List.length_cons]
    omega
  · rename_i char rest _
    rw [Text.readName.eq_def]
    simp only [starts, if_true, List.length_cons]
    exact Nat.lt_succ_of_le (Text.length_readName_le rest)
  · contradiction

theorem readNamed_shortens {text : List Char} (starts : Text.startsName text) :
    (readNamed text).2.length < text.length :=
  Nat.lt_of_le_of_lt (length_readNamed_le text) (readName_shortens starts)

/-- A token has at least one character. -/
theorem length_readKind_le (char : Char) (rest : List Char) :
    (readKind char rest).2.length ≤ rest.length := by
  unfold readKind
  split
  · exact (List.dropWhile_suffix _).length_le
  · split
    · have shorter := Text.length_readQuoted_le char rest
      split <;> rename_i equality <;> rw [equality] at shorter <;> exact shorter
    · split
      · exact Text.length_readName_le rest
      · split
        · rename_i starts
          have shorter := readNamed_shortens starts
          exact Nat.le_of_lt_succ shorter
        · split <;> exact Nat.le_refl _

/-- The tokens of a text that stands at an offset of a larger text. -/
def scanFrom (start : Nat) (text : List Char) : List Token :=
  match _scanned : skipComments text with
  | [] => [⟨.endOfInput, start, text⟩]
  | char :: rest =>
      let read := readKind char rest
      let length := text.length - read.2.length
      ⟨read.1, start, text.take length⟩ :: scanFrom (start + length) read.2
termination_by text.length
decreasing_by
  have skipped := length_skipComments_le text
  have shorter := length_readKind_le char rest
  rw [_scanned] at skipped
  simp only [List.length_cons] at skipped
  omega

/-- The tokens of a text. -/
def scan (text : String) : List Token :=
  scanFrom 0 text.toList

/-- The characters of a text between two offsets, as far as it has them. -/
def source (text : String) (start stop : Nat) : String :=
  String.ofList ((text.toList.take stop).drop start)

end Token

end TreeSelectors
