/-!
# ASCII text

Selector text folds case and separates words by the ASCII rules only: `A` to
`Z` are folded, and five control and space characters are blank.  Every other
character stands for itself.
-/

namespace TreeSelectors.Text

/-- The characters that separate words: tab, line feed, form feed, carriage
return and space. -/
def isBlank (char : Char) : Bool :=
  char = '\n' || char = '\t' || char = ' ' || char = '\r' || char = '\x0c'

/-- A text with its ASCII capitals replaced by small letters. -/
def foldCase (text : String) : String :=
  String.ofList (text.toList.map Char.toLower)

theorem toLower_toLower (char : Char) : char.toLower.toLower = char.toLower := by
  fun_cases Char.toLower char with
  | case1 isUpper =>
      have notUpper : ¬ (char.val + ('a'.val - 'A'.val) ≥ 'A'.val ∧
          char.val + ('a'.val - 'A'.val) ≤ 'Z'.val) := by
        simp only [ge_iff_le, UInt32.le_iff_toNat_le] at isUpper ⊢
        simp at isUpper ⊢
        omega
      exact dif_neg notUpper
  | case2 notUpper => exact dif_neg notUpper

/-- Folding the case of a text a second time changes nothing. -/
@[simp] theorem foldCase_foldCase (text : String) :
    foldCase (foldCase text) = foldCase text := by
  have folds : Char.toLower ∘ Char.toLower = Char.toLower := funext toLower_toLower
  simp only [foldCase, String.toList_ofList, List.map_map, folds]

/-- Equality up to the case of ASCII letters. -/
def sameFolded (left right : String) : Bool :=
  foldCase left = foldCase right

/-- The maximal runs of characters that are not blank, in order. -/
def words : List Char → List (List Char)
  | [] => []
  | char :: rest =>
      if isBlank char then
        words rest
      else
        match rest, words rest with
        | next :: _, word :: more =>
            if isBlank next then [char] :: word :: more
            else (char :: word) :: more
        | _, more => [char] :: more

/-- Whether `word` is one of the blank-separated words of `text`. -/
def hasWord (text word : String) : Bool :=
  (words text.toList).contains word.toList

/-- Whether `needle` occurs in a text as one uninterrupted run. -/
def hasRun (needle : List Char) : List Char → Bool
  | [] => needle.isEmpty
  | char :: rest => needle.isPrefixOf (char :: rest) || hasRun needle rest

end TreeSelectors.Text
