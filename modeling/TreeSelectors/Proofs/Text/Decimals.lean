import TreeSelectors.Text.Decimal

/-!
# Written numbers are read back
-/

namespace TreeSelectors.Text

@[simp] theorem readDigits_toDigits (value : Nat) :
    readDigits (Nat.toDigits 10 value) = some value := by
  have digits : (Nat.toDigits 10 value).all Char.isDigit = true := by
    apply List.all_eq_true.mpr
    intro char member
    exact Nat.isDigit_of_mem_toDigits (by decide) (by decide) member
  have nonempty : (Nat.toDigits 10 value).isEmpty = false :=
    List.isEmpty_eq_false_iff.mpr Nat.toDigits_ne_nil
  rw [readDigits, digits, nonempty, Nat.ofDigitChars_ten_toDigits]
  rfl

/-- A run of decimal digits has the value of its digits. -/
theorem readDigits_eq_some_iff {digits : List Char} {value : Nat} :
    readDigits digits = some value ↔
      digits ≠ [] ∧ (∀ char ∈ digits, char.isDigit = true) ∧
        Nat.ofDigitChars 10 digits 0 = value := by
  rw [readDigits, Option.ite_none_right_eq_some, Option.some.injEq, Bool.and_eq_true,
    Bool.not_eq_true', List.isEmpty_eq_false_iff, List.all_eq_true, and_assoc]

/-- An integer is the word that has its value. -/
theorem toInt32?_eq_some_iff {value : Int} {word : Int32} :
    toInt32? value = some word ↔ word.toInt = value := by
  rw [toInt32?, Option.ite_none_right_eq_some, Option.some.injEq]
  constructor
  · rintro ⟨⟨low, high⟩, rfl⟩
    exact Int32.toInt_ofInt_of_le low (Int.lt_of_le_of_lt high (by decide))
  · rintro rfl
    exact ⟨⟨word.minValue_le_toInt, word.toInt_le⟩, Int32.ofInt_toInt word⟩

@[simp] theorem toInt32?_toInt (value : Int32) : toInt32? value.toInt = some value :=
  toInt32?_eq_some_iff.mpr rfl

/-- A written number starts with a digit, or with a minus sign if it is
negative. -/
theorem writeInt32_cases (value : Int32) :
    (0 ≤ value.toInt ∧ ∃ digit others, writeInt32 value = digit :: others ∧
      digit.isDigit = true ∧ ∀ char ∈ others, char.isDigit = true) ∨
    (value.toInt < 0 ∧ ∃ digits, writeInt32 value = '-' :: digits ∧ digits ≠ [] ∧
      ∀ char ∈ digits, char.isDigit = true) := by
  have digits (number : Nat) : ∀ char ∈ Nat.toDigits 10 number,
      char.isDigit = true :=
    fun char member => Nat.isDigit_of_mem_toDigits (by decide) (by decide) member
  rw [writeInt32]
  cases value.toInt with
  | ofNat number =>
      obtain ⟨digit, others, written⟩ :=
        List.exists_cons_of_ne_nil (@Nat.toDigits_ne_nil number 10)
      have digits := digits number
      rw [written] at digits
      exact Or.inl ⟨Int.natCast_nonneg _, digit, others, written,
        List.forall_mem_cons.mp digits⟩
  | negSucc number =>
      exact Or.inr ⟨Int.negSucc_lt_zero _, _, rfl, Nat.toDigits_ne_nil, digits _⟩

theorem readInt32_digits {digits : List Char}
    (digital : ∀ char ∈ digits, char.isDigit = true) :
    readInt32 digits = (readDigits digits).bind (toInt32? ∘ Int.ofNat) := by
  unfold readInt32
  split
  · have minus := digital '-' List.mem_cons_self
    cases minus
  · rfl

theorem readInt32_minus {digits : List Char} :
    readInt32 ('-' :: digits) =
      (readDigits digits).bind fun value => toInt32? (-Int.ofNat value) :=
  rfl

@[simp] theorem readInt32_writeInt32 (value : Int32) :
    readInt32 (writeInt32 value) = some value := by
  have fits := toInt32?_toInt value
  rw [writeInt32]
  cases exact : value.toInt with
  | ofNat number =>
      have digital : ∀ char ∈ Nat.toDigits 10 number, char.isDigit = true :=
        fun char member => Nat.isDigit_of_mem_toDigits (by decide) (by decide) member
      rw [writeInt, readInt32_digits digital, readDigits_toDigits, Option.bind_some,
        Function.comp_apply, ← exact]
      exact fits
  | negSucc number =>
      have negative : -Int.ofNat (number + 1) = Int.negSucc number := rfl
      rw [writeInt, readInt32_minus, readDigits_toDigits, Option.bind_some, negative,
        ← exact]
      exact fits

end TreeSelectors.Text
