import Mathlib.Data.List.Infix
import TreeSelectors.Proofs.Nth.Notation

/-!
# The texts of formulas

The notation of formulas as a relation between compact texts and formulas.  It leaves
open which signs may stand in front of a number: by the notation proper that is one sign
at most, but a plus sign in front of a minus sign is read as well.  With these signs, the
relation says which texts are read, and as what.
-/

namespace TreeSelectors

namespace Nth

open Text

/-! ## The notation -/

/-- One sign at most, with the factor that it gives to the number behind it. -/
inductive Sign : List Char → Int → Prop where
  | none : Sign [] 1
  | plus : Sign ['+'] 1
  | minus : Sign ['-'] (-1)

/-- The signs that are read. -/
inductive LaxSign : List Char → Int → Prop where
  | single {sign : List Char} {factor : Int} : Sign sign factor → LaxSign sign factor
  | plusMinus : LaxSign ['+', '-'] (-1)

section

variable (signs : List Char → Int → Prop)

/-- A number: a sign and decimal digits. -/
def Numeral (text : List Char) (value : Int) : Prop :=
  ∃ sign factor digits, signs sign factor ∧ digits ≠ [] ∧
    (∀ char ∈ digits, char.isDigit = true) ∧ text = sign ++ digits ∧
    value = factor * Nat.ofDigitChars 10 digits 0

/-- What may stand in front of the letter: a number, or a sign that stands for one. -/
inductive StepText : List Char → Int → Prop where
  | number {text : List Char} {value : Int} :
      Numeral signs text value → StepText text value
  | sign {sign : List Char} {factor : Int} :
      Sign sign factor → StepText sign factor

/-- What may stand behind the letter: nothing, or a number that has a sign. -/
inductive OffsetText : List Char → Int → Prop where
  | nothing : OffsetText [] 0
  | number {text : List Char} {value : Int} :
      Numeral (fun sign factor => signs sign factor ∧ sign ≠ []) text value →
      OffsetText text value

/-- `Denotes signs text formula`: a compact text is the notation of a formula. -/
inductive Denotes : List Char → Nth → Prop where
  | odd : Denotes ['o', 'd', 'd'] ⟨2, 1⟩
  | even : Denotes ['e', 'v', 'e', 'n'] ⟨2, 0⟩
  | number {text : List Char} {offset : Int32} :
      Numeral signs text offset.toInt → Denotes text ⟨0, offset⟩
  | linear {before behind : List Char} {step offset : Int32} :
      StepText signs before step.toInt → OffsetText signs behind offset.toInt →
      Denotes (before ++ 'n' :: behind) ⟨step, offset⟩

end

variable {signs others : List Char → Int → Prop} {text : List Char} {value : Int}
  {word : Int32} {formula : Nth}

/-- The signs matter only as far as they occur in the text. -/
theorem Numeral.imp (numeral : Numeral signs text value)
    (implies : ∀ sign factor, sign <:+: text → signs sign factor → others sign factor) :
    Numeral others text value := by
  obtain ⟨sign, factor, digits, signed, nonempty, digital, rfl, exact⟩ := numeral
  have within : sign <:+: sign ++ digits := (List.prefix_append sign digits).isInfix
  exact ⟨sign, factor, digits, implies sign factor within signed, nonempty, digital, rfl,
    exact⟩

theorem Denotes.imp (denotes : Denotes signs text formula)
    (implies : ∀ sign factor, sign <:+: text → signs sign factor → others sign factor) :
    Denotes others text formula := by
  cases denotes with
  | odd => exact .odd
  | even => exact .even
  | number numeral => exact .number (numeral.imp implies)
  | @linear before behind step offset front back =>
      have left : before <:+: before ++ 'n' :: behind :=
        (List.prefix_append before _).isInfix
      have right : behind <:+: before ++ 'n' :: behind :=
        ((List.suffix_cons 'n' behind).trans (List.suffix_append before _)).isInfix
      refine .linear ?front ?back
      case front =>
        cases front with
        | number numeral =>
            exact .number (numeral.imp fun sign factor within =>
              implies sign factor (within.trans left))
        | sign sign => exact .sign sign
      case back =>
        generalize offset.toInt = value at back ⊢
        cases back with
        | nothing => exact .nothing
        | number numeral =>
            exact .number (numeral.imp fun sign factor within signed =>
              ⟨implies sign factor (within.trans right) signed.1, signed.2⟩)

/-! ## Reading numbers -/

/-- The sign of a number of 32 bits is a minus sign or none. -/
theorem readInt32_eq_some_iff :
    readInt32 text = some word ↔
      Numeral (fun sign factor => Sign sign factor ∧ sign ≠ ['+']) text word.toInt := by
  constructor
  · intro read
    unfold readInt32 at read
    split at read
    · rename_i digits
      obtain ⟨value, known, fits⟩ := Option.bind_eq_some_iff.mp read
      obtain ⟨nonempty, digital, rfl⟩ := readDigits_eq_some_iff.mp known
      refine ⟨['-'], -1, digits, ⟨.minus, by decide⟩, nonempty, digital, rfl, ?_⟩
      rw [toInt32?_eq_some_iff.mp fits, Int.ofNat_eq_natCast, Int.neg_eq_neg_one_mul]
    · obtain ⟨value, known, fits⟩ := Option.bind_eq_some_iff.mp read
      obtain ⟨nonempty, digital, rfl⟩ := readDigits_eq_some_iff.mp known
      refine ⟨[], 1, text, ⟨.none, by decide⟩, nonempty, digital, rfl, ?_⟩
      rw [toInt32?_eq_some_iff.mp fits, Int.ofNat_eq_natCast, Int.one_mul]
  · intro numeral
    obtain ⟨sign, factor, digits, ⟨signed, notPlus⟩, nonempty, digital, rfl, exact⟩ :=
      numeral
    have known := readDigits_eq_some_iff.mpr ⟨nonempty, digital, rfl⟩
    cases signed with
    | none =>
        rw [List.nil_append, readInt32_digits digital, known, Option.bind_some]
        exact toInt32?_eq_some_iff.mpr (by simpa using exact)
    | plus => exact absurd rfl notPlus
    | minus =>
        rw [List.singleton_append, readInt32_minus, known, Option.bind_some]
        exact toInt32?_eq_some_iff.mpr (by simpa using exact)

/-- A number is a number of 32 bits, with or without a plus sign in front. -/
theorem readNumber_eq_some_iff :
    readNumber text = some word ↔ Numeral LaxSign text word.toInt := by
  constructor
  · intro read
    unfold readNumber at read
    split at read
    · obtain ⟨sign, factor, digits, ⟨signed, notPlus⟩, nonempty, digital, rfl, exact⟩ :=
        readInt32_eq_some_iff.mp read
      have lax : LaxSign ('+' :: sign) factor := by
        cases signed with
        | none => exact .single .plus
        | plus => exact absurd rfl notPlus
        | minus => exact .plusMinus
      exact ⟨'+' :: sign, factor, digits, lax, nonempty, digital, rfl, exact⟩
    · exact (readInt32_eq_some_iff.mp read).imp fun _ _ _ signed => .single signed.1
  · intro numeral
    obtain ⟨sign, factor, digits, lax, nonempty, digital, rfl, exact⟩ := numeral
    have read {rest : List Char} (signed : Sign rest factor) (notPlus : rest ≠ ['+']) :
        readInt32 (rest ++ digits) = some word :=
      readInt32_eq_some_iff.mpr
        ⟨rest, factor, digits, ⟨signed, notPlus⟩, nonempty, digital, rfl, exact⟩
    cases lax with
    | single signed =>
        cases signed with
        | none =>
            have unsigned := read .none (by decide)
            rw [List.nil_append] at unsigned ⊢
            unfold readNumber
            split
            · exact absurd (digital '+' List.mem_cons_self) (by decide)
            · exact unsigned
        | plus => exact read .none (by decide)
        | minus => exact read .minus (by decide)
    | plusMinus => exact read .minus (by decide)

/-! ## Reading formulas -/

theorem readStep_eq_some_iff :
    readStep text = some word ↔ StepText LaxSign text word.toInt := by
  constructor
  · intro read
    unfold readStep at read
    split at read
    · cases read
      exact .sign .none
    · cases read
      exact .sign .plus
    · cases read
      exact .sign .minus
    · exact .number (readNumber_eq_some_iff.mp read)
  · intro step
    generalize exact : word.toInt = value at step
    cases step with
    | number numeral =>
        exact readStep_of_readNumber (readNumber_eq_some_iff.mpr (exact ▸ numeral))
    | sign sign =>
        cases sign with
        | none | plus =>
            obtain rfl : word = 1 := Int32.toInt_inj.mp exact
            rfl
        | minus =>
            obtain rfl : word = -1 := Int32.toInt_inj.mp exact
            rfl

theorem readOffset_eq_some_iff :
    readOffset text = some word ↔ OffsetText LaxSign text word.toInt := by
  constructor
  · intro read
    unfold readOffset at read
    split at read
    · cases read
      exact .nothing
    · obtain ⟨isSign, read⟩ := Option.ite_none_right_eq_some.mp read
      obtain ⟨sign, factor, digits, lax, nonempty, digital, spelled, exact⟩ :=
        readNumber_eq_some_iff.mp read
      refine .number
        ⟨sign, factor, digits, ⟨lax, ?_⟩, nonempty, digital, spelled, exact⟩
      rintro rfl
      rw [List.nil_append] at spelled
      have digit := digital _ (spelled ▸ List.mem_cons_self)
      rw [Bool.or_eq_true, decide_eq_true_iff, decide_eq_true_iff] at isSign
      rcases isSign with rfl | rfl <;> cases digit
  · intro offset
    generalize exact : word.toInt = value at offset
    cases offset with
    | nothing =>
        obtain rfl : word = 0 := Int32.toInt_inj.mp exact
        rfl
    | number numeral =>
        have number := readNumber_eq_some_iff.mpr
          (exact ▸ numeral.imp fun _ _ _ signed => signed.1)
        obtain ⟨sign, factor, digits, ⟨lax, visible⟩, -, -, rfl, -⟩ := numeral
        cases lax with
        | single signed =>
            cases signed with
            | none => exact absurd rfl visible
            | plus => exact number
            | minus => exact number
        | plusMinus => exact number

theorem Sign.plain {sign : List Char} {factor : Int} (signed : Sign sign factor) :
    ∀ char ∈ sign, isNotation char = true ∧ char ≠ 'n' := by
  cases signed <;> simp [isNotation]

/-- Numbers are written without the letter. -/
theorem Numeral.plain (numeral : Numeral LaxSign text value) :
    ∀ char ∈ text, isNotation char = true ∧ char ≠ 'n' := by
  obtain ⟨sign, factor, digits, lax, -, digital, rfl, -⟩ := numeral
  refine List.forall_mem_append.mpr ⟨?_, fun char member => ?_⟩
  · cases lax with
    | single signed => exact signed.plain
    | plusMinus => simp [isNotation]
  · refine ⟨isNotation_of_isDigit (digital char member), ?_⟩
    rintro rfl
    exact absurd (digital 'n' member) (by decide)

theorem StepText.plain (step : StepText LaxSign text value) :
    ∀ char ∈ text, isNotation char = true ∧ char ≠ 'n' := by
  cases step with
  | number numeral => exact numeral.plain
  | sign sign => exact sign.plain

/-- Exactly the notation with the lax signs is read. -/
theorem readCompact_eq_some_iff :
    readCompact text = some formula ↔ Denotes LaxSign text formula := by
  constructor
  · intro read
    unfold readCompact at read
    split at read
    · rename_i odd
      cases read
      exact odd ▸ .odd
    · split at read
      · rename_i even
        cases read
        exact even ▸ .even
      · split at read
        · obtain ⟨offset, number, same⟩ := Option.bind_eq_some_iff.mp read
          cases same
          exact .number (readNumber_eq_some_iff.mp number)
        · rename_i letter behind left
          obtain ⟨step, front, read⟩ := Option.bind_eq_some_iff.mp read
          obtain ⟨offset, back, same⟩ := Option.bind_eq_some_iff.mp read
          cases same
          have isLetter : letter = 'n' := by
            have head := List.head?_dropWhile_not (fun char => decide (char ≠ 'n')) text
            rw [left] at head
            simpa using head
          have parts := List.takeWhile_append_dropWhile (p := (· ≠ 'n')) (l := text)
          rw [left, isLetter] at parts
          rw [← parts]
          exact .linear (readStep_eq_some_iff.mp front) (readOffset_eq_some_iff.mp back)
  · intro denotes
    cases denotes with
    | odd => rfl
    | even => rfl
    | number numeral =>
        rw [readCompact_plain numeral.plain, readNumber_eq_some_iff.mpr numeral,
          Option.map_some]
    | linear front back =>
        rw [readCompact_letter front.plain, readStep_eq_some_iff.mpr front,
          readOffset_eq_some_iff.mpr back]
        rfl

/-- A text is read as a formula exactly if, without white space and in small letters, it
is the notation of the formula with the lax signs; as long as there is no plus sign in
front of a minus sign, it is the notation with one sign at most. -/
theorem parse_eq_some_iff (text : List Char) (formula : Nth) :
    (parse text = some formula ↔ Denotes LaxSign (compact text) formula) ∧
      (¬ ['+', '-'] <:+: compact text →
        (parse text = some formula ↔ Denotes Sign (compact text) formula)) := by
  refine ⟨readCompact_eq_some_iff, fun apart => readCompact_eq_some_iff.trans ?_⟩
  constructor
  · refine fun denotes => denotes.imp fun sign factor within signed => ?_
    cases signed with
    | single single => exact single
    | plusMinus => exact absurd within apart
  · exact fun denotes => denotes.imp fun _ _ _ signed => .single signed

/-- White space may stand anywhere, and the sign of the step may be a plus sign. -/
theorem parse_eq_some_iff_spaced :
    ¬ ['+', '-'] <:+: compact "+ 3N -0 7".toList ∧
      parse "+ 3N -0 7".toList = some ⟨3, -7⟩ ∧
      Denotes Sign (compact "+ 3N -0 7".toList) ⟨3, -7⟩ := by
  have apart : ¬ ['+', '-'] <:+: compact "+ 3N -0 7".toList := by decide
  have read : parse "+ 3N -0 7".toList = some ⟨3, -7⟩ := by decide
  exact ⟨apart, read, ((parse_eq_some_iff _ _).2 apart).mp read⟩

/-- Not every number that is read has one sign at most. -/
theorem not_parse_iff_denotes :
    ¬ ∀ (text : List Char) (formula : Nth),
      parse text = some formula ↔ Denotes Sign (compact text) formula := by
  intro exact
  have read : parse "+-3".toList = some ⟨0, -3⟩ := by decide
  have denotes := (exact _ _).mp read
  have spelled : compact "+-3".toList = ['+', '-', '3'] := by decide
  rw [spelled] at denotes
  generalize text : ['+', '-', '3'] = compacted at denotes
  cases denotes with
  | number numeral =>
      obtain ⟨sign, factor, digits, signed, -, digital, rfl, -⟩ := numeral
      cases signed with
      | none =>
          obtain rfl : ['+', '-', '3'] = digits := text
          exact absurd (digital '+' (by simp)) (by decide)
      | plus =>
          obtain rfl : ['-', '3'] = digits := List.cons.inj text |>.2
          exact absurd (digital '-' (by simp)) (by decide)
      | minus => cases text
  | linear =>
      have letter : 'n' ∈ ['+', '-', '3'] := by simp [text]
      exact absurd letter (by decide)

end Nth

end TreeSelectors
