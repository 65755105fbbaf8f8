import TreeSelectors.Text.Quoted

/-!
# Written values are read back
-/

namespace TreeSelectors.Text

variable {value rest : List Char}

private theorem readQuoted_writeQuotedPart_append (char : Char) :
    readQuoted '"' (writeQuotedPart char ++ rest) =
      ((readQuoted '"' rest).1.map (char :: ·), (readQuoted '"' rest).2) := by
  unfold writeQuotedPart
  split
  · rename_i special
    simp only [Bool.or_eq_true, decide_eq_true_eq] at special
    rcases special with rfl | rfl
    · change readQuoted '"' ('\\' :: '"' :: rest) = _
      rw [readQuoted.eq_def]
      rfl
    · change readQuoted '"' ('\\' :: '\\' :: rest) = _
      rw [readQuoted.eq_def]
      rfl
  · rename_i plain
    simp only [Bool.or_eq_true, decide_eq_true_eq, not_or] at plain
    split
    · rename_i newline
      subst newline
      change readQuoted '"' ('\\' :: 'a' :: ' ' :: rest) = _
      rw [readQuoted.eq_def]
      rfl
    · rename_i sameLine
      change readQuoted '"' (char :: rest) = _
      rw [readQuoted.eq_def]
      simp only [plain.1, plain.2, sameLine, if_false]

/-- Every value is read back from between its quotation marks. -/
theorem readQuoted_flatMap_append :
    readQuoted '"' (value.flatMap writeQuotedPart ++ '"' :: rest) =
      (some value, rest) := by
  induction value with
  | nil =>
      change readQuoted '"' ('"' :: rest) = _
      rw [readQuoted.eq_def]
      rfl
  | cons char others induction =>
      rw [List.flatMap_cons, List.append_assoc, readQuoted_writeQuotedPart_append,
        induction]
      rfl

end TreeSelectors.Text
