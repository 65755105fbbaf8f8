import Mathlib.Tactic.ByContra
import TreeSelectors.Proofs.Text.Names
import TreeSelectors.Text.Quoted

/-!
# Where a reading ends

Escapes, names and quoted values are read from the front of a text.  What was read is
read alike in front of any other rest, unless that rest would go on with it.
-/

namespace TreeSelectors.Text

/-- Whether the first character of a text, if there is one, passes a test. -/
def startsWith (test : Char → Bool) (text : List Char) : Bool :=
  text.head?.any test

theorem startsWith_append {test : Char → Bool} {part rest other : List Char}
    (alike : startsWith test other = true → startsWith test rest = true)
    (starts : startsWith test (part ++ other) = true) :
    startsWith test (part ++ rest) = true := by
  cases part with
  | nil => exact alike starts
  | cons char more => exact starts

/-- A reading that ends in front of one rest also ends in front of another one that goes
on with it only where the first one would. -/
theorem ends_of_alike {starts startsOther : Bool}
    (alike : startsOther = true → starts = true) (ends : starts = false) :
    startsOther = false :=
  Bool.eq_false_iff.mpr (mt alike (Bool.eq_false_iff.mp ends))

/-! ## Escapes -/

private theorem splitHexDigits_of_ends {limit : Nat} {text : List Char}
    (ends : startsWith isHexDigit text = false) :
    splitHexDigits limit text = ([], text) := by
  unfold splitHexDigits
  split
  · rename_i char rest
    rw [if_neg (by simpa [startsWith] using ends)]
  · rfl

private theorem splitHexDigits_append (limit : Nat) (text : List Char) :
    ∃ part, text = part ++ (splitHexDigits limit text).2 ∧
      ∀ other, (startsWith isHexDigit other = true →
          startsWith isHexDigit (splitHexDigits limit text).2 = true) →
        splitHexDigits limit (part ++ other) =
          ((splitHexDigits limit text).1, other) := by
  induction limit generalizing text with
  | zero =>
      refine ⟨[], ?_, fun other _ => ?_⟩
      · cases text <;> rfl
      · cases text <;> cases other <;> rfl
  | succ limit induction =>
      cases text with
      | nil =>
          exact ⟨[], rfl, fun other alike =>
            splitHexDigits_of_ends (ends_of_alike alike rfl)⟩
      | cons char rest =>
          rw [splitHexDigits]
          by_cases isDigit : isHexDigit char = true
          · obtain ⟨part, same, reads⟩ := induction rest
            rw [if_pos isDigit]
            refine ⟨char :: part, congrArg (char :: ·) same, fun other ends => ?_⟩
            rw [List.cons_append, splitHexDigits, if_pos isDigit, reads other ends]
          · rw [if_neg isDigit]
            have ends : startsWith isHexDigit (char :: rest) = false :=
              Bool.eq_false_iff.mpr isDigit
            exact ⟨[], rfl, fun other alike =>
              splitHexDigits_of_ends (ends_of_alike alike ends)⟩

private theorem dropBlank_append (text : List Char) :
    ∃ part, text = part ++ dropBlank text ∧
      ∀ other, (startsWith isBlank other = true →
          startsWith isBlank (dropBlank text) = true) →
        dropBlank (part ++ other) = other := by
  have stays {other : List Char} (ends : startsWith isBlank other = false) :
      dropBlank other = other := by
    cases other with
    | nil => rfl
    | cons first others =>
        rw [dropBlank, if_neg (by simpa [startsWith] using ends)]
  cases text with
  | nil =>
      exact ⟨[], rfl, fun other alike => stays (ends_of_alike alike rfl)⟩
  | cons char rest =>
      rw [dropBlank]
      by_cases blank : isBlank char = true
      · rw [if_pos blank]
        refine ⟨[char], rfl, fun other _ => ?_⟩
        rw [List.singleton_append, dropBlank, if_pos blank]
      · rw [if_neg blank]
        have ends : startsWith isBlank (char :: rest) = false :=
          Bool.eq_false_iff.mpr blank
        exact ⟨[], rfl, fun other alike => stays (ends_of_alike alike ends)⟩

/-- An escape of hexadecimal digits goes on with another digit or with a blank. -/
theorem readEscape_append (char : Char) (text : List Char) :
    ∃ part, text = part ++ (readEscape char text).2 ∧
      ∀ other, (startsWith isHexDigit other = true →
          startsWith isHexDigit (readEscape char text).2 = true) →
        (startsWith isBlank other = true →
          startsWith isBlank (readEscape char text).2 = true) →
        readEscape char (part ++ other) = ((readEscape char text).1, other) := by
  unfold readEscape
  by_cases isDigit : isHexDigit char = true
  · simp only [if_pos isDigit]
    obtain ⟨digits, splits, readsDigits⟩ := splitHexDigits_append 5 text
    obtain ⟨blank, drops, readsBlank⟩ := dropBlank_append (splitHexDigits 5 text).2
    refine ⟨digits ++ blank, ?_, fun other noDigit noBlank => ?_⟩
    · rw [List.append_assoc, ← drops, ← splits]
    · have ends : startsWith isHexDigit (blank ++ other) = true →
          startsWith isHexDigit (splitHexDigits 5 text).2 = true := by
        intro starts
        rw [drops]
        exact startsWith_append noDigit starts
      rw [List.append_assoc, readsDigits _ ends, readsBlank _ noBlank]
  · simp only [if_neg isDigit]
    exact ⟨[], rfl, fun other _ _ => rfl⟩

/-! ## Names -/

private theorem startsName_of_isHexDigit {text : List Char}
    (starts : startsWith isHexDigit text = true) : startsName text = true := by
  cases text with
  | nil => cases starts
  | cons char rest =>
      exact startsName_of_isNamePart (isNamePart_of_isHexDigit starts)

/-- A name that is not empty is read from a text that starts with a name. -/
theorem startsName_of_readName {name text rest : List Char} (nonempty : name ≠ [])
    (read : readName text = (name, rest)) : startsName text = true := by
  by_contra ends
  rw [readName_of_not_startsName (Bool.eq_false_iff.mpr ends)] at read
  exact nonempty (Prod.mk.inj read).1.symm

@[simp] theorem startsName_readName_snd (text : List Char) :
    startsName (readName text).2 = false := by
  fun_induction readName text with
  | case1 => rfl
  | case2 _ _ _ _ induction => exact induction
  | case3 => rfl
  | case4 => rfl
  | case5 _ _ _ _ _ induction => exact induction
  | case6 char rest noPart noEscape =>
      exact (startsName_cons noEscape).trans (Bool.eq_false_iff.mpr noPart)

/-- A name goes on with a part of a name or with an escape, and, if an escape is last,
with a blank. -/
theorem readName_append (text : List Char) :
    ∃ part, text = part ++ (readName text).2 ∧
      ∀ other, startsName other = false →
        (startsWith isBlank other = true →
          startsWith isBlank (readName text).2 = true) →
        readName (part ++ other) = ((readName text).1, other) := by
  fun_induction readName text with
  | case1 =>
      exact ⟨[], rfl, fun other noName _ => readName_of_not_startsName noName⟩
  | case2 char rest isPart tail induction =>
      obtain ⟨part, same, reads⟩ := induction
      refine ⟨char :: part, congrArg (char :: ·) same, fun other noName noBlank => ?_⟩
      rw [List.cons_append, readName_part isPart, reads other noName noBlank]
  | case3 =>
      exact ⟨[], rfl, fun other noName _ => readName_of_not_startsName noName⟩
  | case4 =>
      exact ⟨[], rfl, fun other noName _ => readName_of_not_startsName noName⟩
  | case5 next after different tail _ induction =>
      obtain ⟨more, goesOn, reads⟩ := induction
      obtain ⟨part, same, escapes⟩ := readEscape_append next after
      refine ⟨'\\' :: next :: (part ++ more), ?_, fun other noName noBlank => ?_⟩
      · rw [List.cons_append, List.cons_append, List.append_assoc, ← goesOn, ← same]
      · have escaped : readEscape next (part ++ (more ++ other)) =
            ((readEscape next after).1, more ++ other) := by
          apply escapes
          · intro starts
            rw [goesOn]
            refine startsWith_append (fun digit => ?_) starts
            cases (startsName_of_isHexDigit digit).symm.trans noName
          · intro starts
            rw [goesOn]
            exact startsWith_append noBlank starts
        rw [List.cons_append, List.cons_append, List.append_assoc,
          readName_escape different, escaped, reads other noName noBlank]
  | case6 =>
      exact ⟨[], rfl, fun other noName _ => readName_of_not_startsName noName⟩

/-! ## Quoted values -/

/-- Behind the closing mark anything may stand; a value that is not closed ends where
the line ends. -/
theorem readQuoted_append (mark : Char) (text : List Char) :
    ∃ part, text = part ++ (readQuoted mark text).2 ∧
      ((readQuoted mark text).1 ≠ none → part ≠ []) ∧
      ∀ other, ((readQuoted mark text).1 = none →
          other.head? = (readQuoted mark text).2.head?) →
        readQuoted mark (part ++ other) = ((readQuoted mark text).1, other) := by
  fun_induction readQuoted mark text with
  | case1 =>
      refine ⟨[], rfl, fun known => absurd rfl known, fun other ends => ?_⟩
      rw [List.head?_eq_none_iff.mp (ends rfl), List.append_nil, readQuoted]
  | case2 rest =>
      refine ⟨[mark], rfl, fun _ => List.cons_ne_nil _ _, fun other _ => ?_⟩
      rw [List.singleton_append, readQuoted.eq_def]
      simp
  | case3 rest notMark =>
      refine ⟨[], rfl, fun known => absurd rfl known, fun other ends => ?_⟩
      cases other with
      | nil => cases ends rfl
      | cons char others =>
          obtain rfl : char = '\n' := Option.some.inj (ends rfl)
          rw [List.nil_append, readQuoted.eq_def]
          simp [notMark]
  | case4 notMark _ =>
      refine ⟨['\\'], rfl, fun known => absurd rfl known, fun other ends => ?_⟩
      rw [List.head?_eq_none_iff.mp (ends rfl), List.append_nil, readQuoted.eq_def]
      simp [notMark]
  | case5 after notMark _ induction =>
      obtain ⟨part, same, nonempty, reads⟩ := induction
      refine ⟨'\\' :: '\n' :: part, congrArg ('\\' :: '\n' :: ·) same,
        fun _ => List.cons_ne_nil _ _, fun other ends => ?_⟩
      rw [List.cons_append, List.cons_append, readQuoted.eq_def]
      simp [notMark, reads other ends]
  | case6 next after different tail notMark _ induction =>
      obtain ⟨more, goesOn, nonempty, reads⟩ := induction
      obtain ⟨part, same, escapes⟩ := readEscape_append next after
      refine ⟨'\\' :: next :: (part ++ more), ?_, fun _ => List.cons_ne_nil _ _,
        fun other ends => ?_⟩
      · rw [List.cons_append, List.cons_append, List.append_assoc, ← goesOn, ← same]
      · have tailEnds : tail.1 = none → other.head? = tail.2.head? :=
          fun unknown => ends (by rw [unknown]; rfl)
        have alike (test : Char → Bool)
            (starts : startsWith test (more ++ other) = true) :
            startsWith test (readEscape next after).2 = true := by
          rw [goesOn]
          cases more with
          | cons char rest => exact starts
          | nil =>
              have unknown : tail.1 = none := by
                by_contra known
                exact nonempty known rfl
              unfold startsWith at starts ⊢
              rwa [List.nil_append, ← tailEnds unknown]
        have escaped := escapes (more ++ other) (alike _) (alike _)
        rw [List.cons_append, List.cons_append, List.append_assoc, readQuoted.eq_def]
        simp [notMark, different, escaped, reads other tailEnds, tail]
  | case7 char rest notMark notEnd notEscape tail induction =>
      obtain ⟨part, same, nonempty, reads⟩ := induction
      refine ⟨char :: part, congrArg (char :: ·) same,
        fun _ => List.cons_ne_nil _ _, fun other ends => ?_⟩
      have tailEnds : tail.1 = none → other.head? = tail.2.head? :=
        fun unknown => ends (by rw [unknown]; rfl)
      rw [List.cons_append, readQuoted.eq_def]
      simp [notMark, notEnd, notEscape, reads other tailEnds, tail]

end TreeSelectors.Text
