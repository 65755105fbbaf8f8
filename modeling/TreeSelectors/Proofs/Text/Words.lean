import TreeSelectors.AttributeTest

/-!
# Words of a text

A word is never empty and has no blank in it.  So the guards of the test for a word,
which refuse such values beforehand, change no answer.
-/

namespace TreeSelectors.Text

private theorem mem_words {text word : List Char} (member : word ∈ words text) :
    word ≠ [] ∧ ∀ char ∈ word, isBlank char = false := by
  have alone {char : Char} (solid : ¬ isBlank char = true) :
      [char] ≠ [] ∧ ∀ other ∈ [char], isBlank other = false :=
    ⟨List.cons_ne_nil _ _, by simpa using solid⟩
  fun_induction words text generalizing word with
  | case1 => cases member
  | case2 char rest blank induction => exact induction member
  | case3 char solid next others first more ends found induction =>
      simp only [found, ends, if_true] at member
      rcases List.mem_cons.mp member with rfl | later
      · exact alone solid
      · exact induction (found ▸ later)
  | case4 char solid next others first more goesOn found induction =>
      simp only [found, goesOn] at member
      rcases List.mem_cons.mp member with rfl | later
      · obtain ⟨-, inner⟩ := induction (found ▸ List.mem_cons_self)
        exact ⟨List.cons_ne_nil _ _,
          List.forall_mem_cons.mpr ⟨Bool.eq_false_iff.mpr solid, inner⟩⟩
      · exact induction (found ▸ List.mem_cons_of_mem _ later)
  | case5 char rest solid last induction =>
      split at member
      · exact (last _ _ _ _ rfl ‹_›).elim
      · rcases List.mem_cons.mp member with rfl | later
        · exact alone solid
        · exact induction later

/-- Being a word of a text and passing the test for a word are the same. -/
theorem hasWord_eq_compare (text word : String) :
    hasWord text word =
      AttributeTest.compare .includes word.toList text.toList := by
  rw [hasWord, AttributeTest.compare]
  cases among : (words text.toList).contains word.toList with
  | false => rw [Bool.and_false]
  | true =>
      obtain ⟨nonempty, solid⟩ := mem_words (List.contains_iff_mem.mp among)
      have noBlank : word.toList.any isBlank = false := by simpa using solid
      rw [List.isEmpty_eq_false_iff.mpr nonempty, noBlank]
      rfl

end TreeSelectors.Text
