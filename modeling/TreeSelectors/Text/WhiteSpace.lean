/-!
# White space

The Unicode property `White_Space`.  It decides what may be left out of the
text of an `An+B` formula, where it is wider than the blanks of
`TreeSelectors.Text.isBlank`.
-/

namespace TreeSelectors.Text

/-- The closed ranges of code points with the property `White_Space`. -/
def whiteSpaceRanges : List (Nat × Nat) :=
  [(0x0009, 0x000D), (0x0020, 0x0020), (0x0085, 0x0085), (0x00A0, 0x00A0),
    (0x1680, 0x1680), (0x2000, 0x200A), (0x2028, 0x2029), (0x202F, 0x202F),
    (0x205F, 0x205F), (0x3000, 0x3000)]

/-- Whether a character has the property `White_Space`. -/
def isWhiteSpace (char : Char) : Bool :=
  whiteSpaceRanges.any fun (first, last) =>
    first ≤ char.toNat && char.toNat ≤ last

/-- A text without the white space at its two ends. -/
def trim (text : List Char) : List Char :=
  ((text.dropWhile isWhiteSpace).reverse.dropWhile isWhiteSpace).reverse

end TreeSelectors.Text
