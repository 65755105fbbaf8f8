import Mathlib.Data.List.TakeWhile
import TreeSelectors.Nth
import TreeSelectors.Proofs.Text.Decimals

/-!
# The notation of written formulas

A written formula is compact, and its parts are read back from their places
around the letter `n`.
-/

namespace TreeSelectors

namespace Nth

open Text

/-- The characters that formulas are written with. -/
def isNotation (char : Char) : Bool :=
  char.isDigit || char = '-' || char = '+' || char = 'n'

variable {text : List Char}

theorem isNotation_of_isDigit {char : Char} (digit : char.isDigit = true) :
    isNotation char = true := by
  simp [isNotation, digit]

private theorem isNotation_of_mem_writeInt32 {value : Int32} :
    ∀ char ∈ writeInt32 value, isNotation char = true ∧ char ≠ 'n' := by
  have digit {char : Char} (isDigit : char.isDigit = true) :
      isNotation char = true ∧ char ≠ 'n' := by
    refine ⟨isNotation_of_isDigit isDigit, ?_⟩
    rintro rfl
    cases isDigit
  intro char member
  obtain ⟨-, first, others, written, isDigit, digits⟩ | ⟨-, digits, written, -, all⟩ :=
    writeInt32_cases value
  · rw [written] at member
    rcases List.mem_cons.mp member with rfl | member
    · exact digit isDigit
    · exact digit (digits char member)
  · rw [written] at member
    rcases List.mem_cons.mp member with rfl | member
    · decide
    · exact digit (all char member)

theorem isNotation_of_mem_write {formula : Nth} :
    ∀ char ∈ formula.write, isNotation char = true := by
  have number {value : Int32} : ∀ char ∈ writeInt32 value, isNotation char = true :=
    fun char member => (isNotation_of_mem_writeInt32 char member).1
  have letter : isNotation 'n' = true := by decide
  have plus : isNotation '+' = true := by decide
  unfold write
  split
  · exact number
  · split
    · exact List.forall_mem_append.mpr ⟨number, by simpa using letter⟩
    · split
      · refine List.forall_mem_append.mpr ⟨number, ?_⟩
        exact List.forall_mem_cons.mpr ⟨letter, List.forall_mem_cons.mpr ⟨plus, number⟩⟩
      · refine List.forall_mem_append.mpr ⟨number, ?_⟩
        exact List.forall_mem_cons.mpr ⟨letter, number⟩

theorem compact_eq_self (written : ∀ char ∈ text, isNotation char = true) :
    compact text = text := by
  have plain (char : Char) (part : isNotation char = true) :
      isWhiteSpace char = false ∧ char.toLower = char := by
    simp only [isNotation, Bool.or_eq_true, decide_eq_true_eq] at part
    obtain ((digit | rfl) | rfl) | rfl := part
    · have bounds : 48 ≤ char.toNat ∧ char.toNat ≤ 57 := by
        simpa [Char.isDigit, UInt32.le_iff_toNat_le] using digit
      constructor
      · simp [isWhiteSpace, whiteSpaceRanges]
        omega
      · refine dif_neg fun capital => ?_
        have letter : 65 ≤ char.toNat ∧ char.toNat ≤ 90 := by
          simpa [UInt32.le_iff_toNat_le] using capital
        omega
    · decide
    · decide
    · decide
  have kept : text.filter (fun char => !isWhiteSpace char) = text := by
    apply List.filter_eq_self.mpr
    intro char member
    simp [(plain char (written char member)).1]
  rw [compact, kept]
  calc text.map Char.toLower
      = text.map id :=
        List.map_congr_left fun char member => (plain char (written char member)).2
    _ = text := List.map_id text

@[simp] theorem readNumber_writeInt32 (value : Int32) :
    readNumber (writeInt32 value) = some value := by
  have read := readInt32_writeInt32 value
  unfold readNumber
  split
  · rename_i rest written
    obtain ⟨-, _, _, other, digit, -⟩ | ⟨-, _, other, -⟩ := writeInt32_cases value
    · cases written.symm.trans other
      cases digit
    · cases written.symm.trans other
  · exact read

/-- A number is read as the step that it is. -/
theorem readStep_of_readNumber {value : Int32} (number : readNumber text = some value) :
    readStep text = some value := by
  unfold readStep
  split
  · cases number
  · cases number
  · cases number
  · exact number

@[simp] theorem readStep_writeInt32 (value : Int32) :
    readStep (writeInt32 value) = some value :=
  readStep_of_readNumber (readNumber_writeInt32 value)

/-- What is written behind the letter is read as the offset. -/
theorem readOffset_of_neg {value : Int32} (negative : value.toInt < 0) :
    readOffset (writeInt32 value) = some value := by
  have number := readNumber_writeInt32 value
  obtain ⟨positive, -⟩ | ⟨-, digits, written, -⟩ := writeInt32_cases value
  · omega
  · rw [written] at number ⊢
    exact number

@[simp] theorem readOffset_plus (value : Int32) :
    readOffset ('+' :: writeInt32 value) = some value :=
  readInt32_writeInt32 value

/-- A step, the letter and an offset are read one by one. -/
theorem readCompact_letter {step offset : List Char}
    (plain : ∀ char ∈ step, isNotation char = true ∧ char ≠ 'n') :
    readCompact (step ++ 'n' :: offset) =
      (readStep step).bind fun first => (readOffset offset).map (⟨first, ·⟩) := by
  have notOdd : step ++ 'n' :: offset ≠ ['o', 'd', 'd'] := by
    intro same
    have member : 'n' ∈ ['o', 'd', 'd'] := by simp [← same]
    exact absurd member (by decide)
  have notEven : step ++ 'n' :: offset ≠ ['e', 'v', 'e', 'n'] := by
    intro same
    cases step with
    | nil => cases same
    | cons char others =>
        obtain ⟨rfl, -⟩ := List.cons.inj same
        exact absurd (plain 'e' List.mem_cons_self).1 (by decide)
  have before : ∀ char ∈ step, decide (char ≠ 'n') = true :=
    fun char member => decide_eq_true (plain char member).2
  have dropped : (step ++ 'n' :: offset).dropWhile (· ≠ 'n') = 'n' :: offset := by
    rw [List.dropWhile_append_of_pos before]
    rfl
  have taken : (step ++ 'n' :: offset).takeWhile (· ≠ 'n') = step := by
    rw [List.takeWhile_append_of_pos before]
    simp
  rw [readCompact, if_neg notOdd, if_neg notEven, dropped, taken]
  cases readStep step with
  | none => rfl
  | some first => cases second : readOffset offset <;> simp [second]

/-- Without the letter, the text is a number. -/
theorem readCompact_plain (plain : ∀ char ∈ text, isNotation char = true ∧ char ≠ 'n') :
    readCompact text = (readNumber text).map (⟨0, ·⟩) := by
  have notOdd : text ≠ ['o', 'd', 'd'] := by
    rintro rfl
    exact absurd (plain 'o' (by decide)).1 (by decide)
  have notEven : text ≠ ['e', 'v', 'e', 'n'] := by
    rintro rfl
    exact absurd (plain 'e' (by decide)).1 (by decide)
  have dropped : text.dropWhile (· ≠ 'n') = [] :=
    List.dropWhile_eq_nil_iff.mpr fun char member =>
      decide_eq_true (plain char member).2
  rw [readCompact, if_neg notOdd, if_neg notEven, dropped]
  cases readNumber text <;> rfl

@[simp] theorem readCompact_number (value : Int32) :
    readCompact (writeInt32 value) = some ⟨0, value⟩ := by
  rw [readCompact_plain isNotation_of_mem_writeInt32, readNumber_writeInt32,
    Option.map_some]

@[simp] theorem readCompact_write (formula : Nth) :
    readCompact formula.write = some formula := by
  obtain ⟨step, offset⟩ := formula
  have plain := @isNotation_of_mem_writeInt32 step
  unfold write
  dsimp only
  split
  · rename_i zero
    rw [zero, readCompact_number]
  · split
    · rename_i zero
      rw [zero, readCompact_letter plain, readStep_writeInt32]
      rfl
    · split
      · rw [readCompact_letter plain, readStep_writeInt32, readOffset_plus]
        rfl
      · rename_i nonzero notPositive
        have negative : offset.toInt < 0 := by
          rw [← Int32.toInt_inj, Int32.toInt_zero] at nonzero
          rw [Int32.lt_iff_toInt_lt, Int32.toInt_zero] at notPositive
          omega
        rw [readCompact_letter plain, readStep_writeInt32, readOffset_of_neg negative]
        rfl

/-- Whatever the step and the offset, the written formula is read back. -/
theorem parse_write (step offset : Int32) :
    parse (write ⟨step, offset⟩) = some ⟨step, offset⟩ := by
  rw [parse, compact_eq_self isNotation_of_mem_write, readCompact_write]

/-- The step and the offset furthest from zero. -/
example : write ⟨Int32.minValue, Int32.maxValue⟩ = "-2147483648n+2147483647".toList := by
  decide

/-! ## Texts with a slash

A slash belongs to no number and to no keyword, so that no text with a slash in it is a
formula. -/

private theorem readDigits_of_slash (member : '/' ∈ text) : readDigits text = none := by
  have noDigit : text.all Char.isDigit = false :=
    List.all_eq_false.mpr ⟨'/', member, by decide⟩
  simp [readDigits, noDigit]

private theorem readInt32_of_slash (member : '/' ∈ text) : readInt32 text = none := by
  unfold readInt32
  split
  · rename_i digits
    have among : '/' ∈ digits := by simpa using member
    simp [readDigits_of_slash among]
  · simp [readDigits_of_slash member]

private theorem readNumber_of_slash (member : '/' ∈ text) : readNumber text = none := by
  unfold readNumber
  split
  · rename_i rest
    exact readInt32_of_slash (by simpa using member)
  · exact readInt32_of_slash member

private theorem readStep_of_slash (member : '/' ∈ text) : readStep text = none := by
  unfold readStep
  split
  · cases member
  · simp at member
  · simp at member
  · exact readNumber_of_slash member

private theorem readOffset_of_slash (member : '/' ∈ text) : readOffset text = none := by
  unfold readOffset
  split
  · cases member
  · split
    · exact readNumber_of_slash member
    · rfl

theorem readCompact_of_slash (member : '/' ∈ text) : readCompact text = none := by
  have notOdd : text ≠ ['o', 'd', 'd'] := by
    rintro rfl
    simp at member
  have notEven : text ≠ ['e', 'v', 'e', 'n'] := by
    rintro rfl
    simp at member
  rw [readCompact, if_neg notOdd, if_neg notEven]
  have parts : '/' ∈ text.takeWhile (· ≠ 'n') ++ text.dropWhile (· ≠ 'n') := by
    rwa [List.takeWhile_append_dropWhile]
  have letter := List.head?_dropWhile_not (fun char => decide (char ≠ 'n')) text
  cases left : text.dropWhile (· ≠ 'n') with
  | nil => simp [readNumber_of_slash member]
  | cons first offset =>
      rw [left] at parts letter
      have isLetter : first = 'n' := by simpa using letter
      rcases List.mem_append.mp parts with inStep | behind
      · dsimp only
        rw [readStep_of_slash inStep]
        rfl
      · have inOffset : '/' ∈ offset := by
          subst isLetter
          simpa using behind
        simp [readOffset_of_slash inOffset]

theorem parse_of_slash (member : '/' ∈ text) : parse text = none :=
  readCompact_of_slash (List.mem_map.mpr
    ⟨'/', List.mem_filter.mpr ⟨member, by decide⟩, by decide⟩)

end Nth

end TreeSelectors
