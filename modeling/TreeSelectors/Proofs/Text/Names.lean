import TreeSelectors.Text.Name

/-!
# Written names are read back

A name on one line is read back from the text that it is written as, in front of
anything that does not go on with the name.  A line feed in a name is written as a
backslash at the end of a line, which is no escape, and so the name ends there.
-/

namespace TreeSelectors.Text

variable {char : Char} {name rest : List Char}

/-! ## Reading a character at a time -/

theorem readName_part (part : isNamePart char = true) :
    readName (char :: rest) = (char :: (readName rest).1, (readName rest).2) := by
  rw [readName.eq_def]
  simp only [part, if_true]

theorem startsName_cons (noEscape : char ≠ '\\') :
    startsName (char :: rest) = isNamePart char := by
  unfold startsName
  split
  · rename_i same
    cases same
    exact absurd rfl noEscape
  · rename_i same
    cases same
    rfl
  · contradiction

theorem startsName_of_isNamePart (part : isNamePart char = true) :
    startsName (char :: rest) = true := by
  rw [startsName_cons, part]
  rintro rfl
  cases part

theorem readName_escape {next : Char} (sameLine : next ≠ '\n') :
    readName ('\\' :: next :: rest) =
      ((readEscape next rest).1 :: (readName (readEscape next rest).2).1,
        (readName (readEscape next rest).2).2) := by
  have noPart : isNamePart '\\' = false := by decide
  rw [readName.eq_def]
  simp only [noPart, Bool.false_eq_true, if_false, if_true, sameLine]

theorem readName_of_not_startsName {text : List Char}
    (ends : startsName text = false) : readName text = ([], text) := by
  fun_cases readName text with
  | case1 => rfl
  | case2 char rest part => cases (startsName_of_isNamePart part).symm.trans ends
  | case3 => rfl
  | case4 => rfl
  | case5 next after different => simp [startsName, different] at ends
  | case6 => rfl

theorem readName_fst_ne_nil {text : List Char} (starts : startsName text = true) :
    (readName text).1 ≠ [] := by
  unfold startsName at starts
  split at starts
  · rename_i next others
    have differs : next ≠ '\n' := by simpa using starts
    rw [readName_escape differs]
    simp
  · rw [readName_part starts]
    simp
  · cases starts

theorem isNamePart_of_isHexDigit (digit : isHexDigit char = true) :
    isNamePart char = true := by
  have alphanumeric : char.isAlphanum = true := by
    simp only [isHexDigit, Bool.or_eq_true, Bool.and_eq_true, decide_eq_true_eq] at digit
    rcases digit with (decimal | ⟨first, last⟩) | ⟨first, last⟩
    · simp [Char.isAlphanum, decimal]
    · have small : char.isLower = true :=
        Bool.and_eq_true_iff.mpr
          ⟨decide_eq_true first, decide_eq_true (Char.le_trans last (by decide))⟩
      have letter : char.isAlpha = true := Bool.or_eq_true_iff.mpr (Or.inr small)
      simp [Char.isAlphanum, letter]
    · have capital : char.isUpper = true :=
        decide_eq_true ⟨first, Char.le_trans last (by decide)⟩
      have letter : char.isAlpha = true := Bool.or_eq_true_iff.mpr (Or.inl capital)
      simp [Char.isAlphanum, letter]
  simp [isNamePart, alphanumeric]

theorem readName_writeNamePart_append (sameLine : char ≠ '\n') :
    readName (writeNamePart char ++ rest) =
      (char :: (readName rest).1, (readName rest).2) := by
  unfold writeNamePart
  split
  · rename_i part
    exact readName_part part
  · rename_i noPart
    have noDigit : isHexDigit char = false := by
      apply Bool.eq_false_iff.mpr
      intro digit
      exact noPart (isNamePart_of_isHexDigit digit)
    have escape : readEscape char rest = (char, rest) := by
      simp [readEscape, noDigit]
    change readName ('\\' :: char :: rest) = _
    rw [readName_escape sameLine, escape]

private theorem readName_flatMap_append (sameLine : '\n' ∉ name)
    (ends : startsName rest = false) :
    readName (name.flatMap writeNamePart ++ rest) = (name, rest) := by
  induction name with
  | nil => exact readName_of_not_startsName ends
  | cons char others induction =>
      simp only [List.mem_cons, not_or] at sameLine
      have others := induction sameLine.2
      rw [List.flatMap_cons, List.append_assoc,
        readName_writeNamePart_append (Ne.symm sameLine.1), others]

theorem readName_parts_append (parts : ∀ char ∈ name, isNamePart char = true)
    (ends : startsName rest = false) : readName (name ++ rest) = (name, rest) := by
  induction name with
  | nil => exact readName_of_not_startsName ends
  | cons char others induction =>
      obtain ⟨part, parts⟩ := List.forall_mem_cons.mp parts
      rw [List.cons_append, readName_part part, induction parts]

/-! ## The first character -/

private theorem isDigit_cases (digit : char.isDigit = true) :
    char ∈ ['0', '1', '2', '3', '4', '5', '6', '7', '8', '9'] := by
  have value := Char.ofNat_toNat char
  have bounds : 48 ≤ char.toNat ∧ char.toNat ≤ 57 := by
    simpa [Char.isDigit, UInt32.le_iff_toNat_le] using digit
  have cases : char.toNat = 48 ∨ char.toNat = 49 ∨ char.toNat = 50 ∨
      char.toNat = 51 ∨ char.toNat = 52 ∨ char.toNat = 53 ∨ char.toNat = 54 ∨
      char.toNat = 55 ∨ char.toNat = 56 ∨ char.toNat = 57 := by
    omega
  rcases cases with code | code | code | code | code | code | code | code | code |
    code
  all_goals
    rw [code] at value
    subst value
    decide

theorem readEscape_digit (digit : char.isDigit = true) :
    ∃ second, Nat.toDigits 16 char.toNat = ['3', second] ∧
      readEscape '3' (second :: ' ' :: rest) = (char, rest) := by
  have cases := isDigit_cases digit
  simp only [List.mem_cons, List.not_mem_nil, or_false] at cases
  rcases cases with rfl | rfl | rfl | rfl | rfl | rfl | rfl | rfl | rfl | rfl
  all_goals exact ⟨_, rfl, rfl⟩

/-- The first character of a name is read back; it is no raw digit. -/
theorem readName_writeName_cons {others : List Char} (sameLine : char ≠ '\n') :
    readName (writeName (char :: others) ++ rest) =
      (char :: (readName (others.flatMap writeNamePart ++ rest)).1,
        (readName (others.flatMap writeNamePart ++ rest)).2) := by
  simp only [writeName]
  split
  · rename_i digit
    obtain ⟨second, written, escape⟩ :=
      @readEscape_digit char (others.flatMap writeNamePart ++ rest) digit
    rw [written]
    change readName ('\\' :: '3' :: (second :: ' ' ::
      (others.flatMap writeNamePart ++ rest))) = _
    rw [readName_escape (by decide), escape]
  · split
    · rename_i lone
      simp only [Bool.and_eq_true, decide_eq_true_eq, List.isEmpty_iff] at lone
      obtain ⟨rfl, rfl⟩ := lone
      have escape : readEscape '-' rest = ('-', rest) := rfl
      change readName ('\\' :: '-' :: rest) = _
      rw [readName_escape (by decide), escape]
      rfl
    · rw [List.append_assoc, readName_writeNamePart_append sameLine]

theorem readName_writeName_append (nonempty : name ≠ []) (sameLine : '\n' ∉ name)
    (ends : startsName rest = false) :
    readName (writeName name ++ rest) = (name, rest) := by
  obtain ⟨first, others, rfl⟩ := List.exists_cons_of_ne_nil nonempty
  simp only [List.mem_cons, not_or] at sameLine
  rw [readName_writeName_cons (Ne.symm sameLine.1),
    readName_flatMap_append sameLine.2 ends]

/-- A written name starts with a part that is no digit, or with a backslash, which
starts an escape unless the name starts with a line feed. -/
theorem writeName_cases (nonempty : name ≠ []) :
    ∃ char others, writeName name = char :: others ∧
      (isNamePart char = true ∧ char.isDigit = false ∨
        char = '\\' ∧ ∃ next more, others = next :: more ∧
          (next = '\n' → name.head? = some '\n')) := by
  obtain ⟨first, others, rfl⟩ := List.exists_cons_of_ne_nil nonempty
  have escaped (more : List Char) : ∃ char others, '\\' :: first :: more = char :: others ∧
      (isNamePart char = true ∧ char.isDigit = false ∨
        char = '\\' ∧ ∃ next more, others = next :: more ∧
          (next = '\n' → (first :: others).head? = some '\n')) :=
    ⟨'\\', _, rfl, Or.inr ⟨rfl, first, _, rfl, congrArg some⟩⟩
  simp only [writeName]
  split
  · rename_i digit
    obtain ⟨second, written, -⟩ := @readEscape_digit first [] digit
    rw [written]
    exact ⟨'\\', _, rfl, Or.inr ⟨rfl, '3', _, rfl, fun same => by cases same⟩⟩
  · rename_i noDigit
    split
    · exact escaped _
    · unfold writeNamePart
      split
      · rename_i part
        exact ⟨first, _, rfl, Or.inl ⟨part, Bool.eq_false_iff.mpr noDigit⟩⟩
      · exact escaped _

theorem exists_writeName_cons (nonempty : name ≠ []) :
    ∃ char others, writeName name = char :: others ∧
      (isNamePart char = true ∨ char = '\\') := by
  obtain ⟨char, others, written, ⟨part, -⟩ | ⟨escape, -⟩⟩ := writeName_cases nonempty
  · exact ⟨char, others, written, Or.inl part⟩
  · exact ⟨char, others, written, Or.inr escape⟩

theorem startsName_writeName_append (nonempty : name ≠ [])
    (starts : name.head? ≠ some '\n') : startsName (writeName name ++ rest) = true := by
  obtain ⟨char, others, written, ⟨part, -⟩ | ⟨rfl, next, more, rfl, breaks⟩⟩ :=
    writeName_cases nonempty
  · rw [written]
    exact startsName_of_isNamePart part
  · rw [written]
    simpa [startsName] using mt breaks starts

/-! ## Line feeds -/

@[simp] theorem startsName_lineFeed : startsName ('\\' :: '\n' :: rest) = false :=
  rfl

private theorem readName_flatMap_lineFeed (broken : '\n' ∈ name) (rest : List Char) :
    ∃ front more, readName (name.flatMap writeNamePart ++ rest) =
      (front, '\\' :: '\n' :: more) := by
  induction name with
  | nil => cases broken
  | cons first others induction =>
      by_cases breaks : first = '\n'
      · subst breaks
        exact ⟨[], _, readName_of_not_startsName startsName_lineFeed⟩
      · obtain ⟨front, more, read⟩ :=
          induction (List.mem_of_ne_of_mem (Ne.symm breaks) broken)
        rw [List.flatMap_cons, List.append_assoc, readName_writeNamePart_append breaks,
          read]
        exact ⟨first :: front, more, rfl⟩

/-- A name is read back only up to its first line feed. -/
theorem readName_writeName_lineFeed (broken : '\n' ∈ name) (rest : List Char) :
    ∃ front more, readName (writeName name ++ rest) = (front, '\\' :: '\n' :: more) := by
  obtain ⟨first, others, rfl⟩ := List.exists_cons_of_ne_nil (List.ne_nil_of_mem broken)
  by_cases breaks : first = '\n'
  · subst breaks
    exact ⟨[], _, readName_of_not_startsName startsName_lineFeed⟩
  · obtain ⟨front, more, read⟩ :=
      readName_flatMap_lineFeed (List.mem_of_ne_of_mem (Ne.symm breaks) broken) rest
    rw [readName_writeName_cons breaks, read]
    exact ⟨first :: front, more, rfl⟩

end TreeSelectors.Text
