import TreeSelectors.Text.Escape

/-!
# Quoted text

Attribute values in selector text stand between two quotation marks of either
kind.  `readQuoted` reads up to the closing mark; `writeQuoted` writes a value
between double quotation marks.
-/

namespace TreeSelectors.Text

/-- Reads a value up to the closing mark.  There is no value if the line or the
text ends first; a line end is then left unread.  A backslash at the end of a
line joins it with the next one. -/
def readQuoted (mark : Char) (text : List Char) :
    Option (List Char) × List Char :=
  match text with
  | [] => (none, [])
  | char :: rest =>
      if char = mark then
        (some [], rest)
      else if char = '\n' then
        (none, text)
      else if char = '\\' then
        match rest with
        | [] => (none, [])
        | next :: after =>
            if next = '\n' then
              readQuoted mark after
            else
              let tail := readQuoted mark (readEscape next after).2
              (tail.1.map ((readEscape next after).1 :: ·), tail.2)
      else
        let tail := readQuoted mark rest
        (tail.1.map (char :: ·), tail.2)
termination_by text.length
decreasing_by
  · simp only [List.length_cons]
    omega
  · have shorter := length_readEscape_le next after
    simp only [List.length_cons]
    omega
  · simp

/-- A value is read from the front of a text. -/
theorem length_readQuoted_le (mark : Char) (text : List Char) :
    (readQuoted mark text).2.length ≤ text.length := by
  fun_induction readQuoted mark text with
  | case1 => simp
  | case2 => simp
  | case3 => simp
  | case4 => simp
  | case5 after _ _ induction =>
      simp only [List.length_cons]
      exact Nat.le_trans induction (by omega)
  | case6 next after _ _ _ tail induction =>
      have shorter := length_readEscape_le next after
      simp only [List.length_cons]
      exact Nat.le_trans induction (by omega)
  | case7 _ rest _ _ _ tail induction =>
      simp only [List.length_cons]
      exact Nat.le_succ_of_le induction

/-- A character between double quotation marks. -/
def writeQuotedPart (char : Char) : List Char :=
  if char = '"' || char = '\\' then ['\\', char]
  else if char = '\n' then ['\\', 'a', ' ']
  else [char]

/-- A value between double quotation marks. -/
def writeQuoted (value : List Char) : List Char :=
  '"' :: value.flatMap writeQuotedPart ++ ['"']

end TreeSelectors.Text
