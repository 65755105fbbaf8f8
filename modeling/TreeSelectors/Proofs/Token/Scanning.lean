import TreeSelectors.Proofs.Text.Names
import TreeSelectors.Token.Lexer

/-!
# Scanned text

The tokens of a text end with the only token that stands for its end, and no
name among them is empty.
-/

namespace TreeSelectors

namespace Token

private theorem readNamed_fst_ne_endOfInput (text : List Char) :
    (readNamed text).1 ≠ .endOfInput := by
  unfold readNamed
  split <;> simp

private theorem punctuation?_ne_endOfInput (char : Char) :
    punctuation? char ≠ some .endOfInput := by
  unfold punctuation?
  split <;> simp

theorem readKind_fst_ne_endOfInput (char : Char) (rest : List Char) :
    (readKind char rest).1 ≠ .endOfInput := by
  unfold readKind
  split
  · simp
  · split
    · split <;> simp
    · split
      · simp
      · split
        · exact readNamed_fst_ne_endOfInput _
        · split
          · rename_i kind found
            intro same
            exact punctuation?_ne_endOfInput char (found.trans (congrArg some same))
          · simp

theorem scanFrom_of_skipComments_nil {start : Nat} {text : List Char}
    (skipped : skipComments text = []) :
    scanFrom start text = [⟨.endOfInput, start, text⟩] := by
  rw [scanFrom.eq_def]
  split
  · rfl
  · rename_i scanned
    cases skipped.symm.trans scanned

@[simp] theorem scanFrom_nil (start : Nat) :
    scanFrom start [] = [⟨.endOfInput, start, []⟩] := by
  apply scanFrom_of_skipComments_nil
  rw [skipComments]
  simp

/-- The first token, with the comments in front of it. -/
theorem scanFrom_eq_cons {start : Nat} {front part rest : List Char} {char : Char}
    {kind : TokenKind}
    (skipped : skipComments (front ++ char :: (part ++ rest)) = char :: (part ++ rest))
    (read : readKind char (part ++ rest) = (kind, rest)) :
    scanFrom start (front ++ char :: (part ++ rest)) =
      ⟨kind, start, front ++ char :: part⟩ ::
        scanFrom (start + (front ++ char :: part).length) rest := by
  have whole : front ++ char :: (part ++ rest) = (front ++ char :: part) ++ rest := by
    simp
  have length : (front ++ char :: (part ++ rest)).length - rest.length =
      (front ++ char :: part).length := by
    rw [whole, @List.length_append _ (front ++ char :: part) rest]
    exact Nat.add_sub_cancel _ _
  have taken : (front ++ char :: (part ++ rest)).take (front ++ char :: part).length =
      front ++ char :: part := by
    rw [whole]
    exact List.take_left
  rw [scanFrom.eq_def]
  split
  · rename_i empty
    cases skipped.symm.trans empty
  · rename_i first others scanned
    obtain ⟨rfl, rfl⟩ := List.cons.inj (skipped.symm.trans scanned)
    simp only [read]
    rw [length, taken]

theorem start_of_scanFrom {start : Nat} {text : List Char} {token : Token}
    {more : List Token} (scanned : scanFrom start text = token :: more) :
    token.start = start := by
  rw [scanFrom.eq_def] at scanned
  split at scanned
  · cases scanned
    rfl
  · rw [← (List.cons.inj scanned).1]

/-- The starts of the tokens of a text increase from its own start on. -/
theorem scanFrom_increasing (start : Nat) (text : List Char) :
    (∀ token ∈ scanFrom start text, start ≤ token.start) ∧
      (scanFrom start text).Pairwise (·.start < ·.start) := by
  fun_induction scanFrom start text with
  | case1 => simp
  | case2 start text char rest skipped read length induction =>
      obtain ⟨later, increasing⟩ := induction
      have nonempty : 0 < length := by
        have fits := length_skipComments_le text
        have shorter := length_readKind_le char rest
        rw [skipped, List.length_cons] at fits
        simp only [length, read]
        omega
      refine ⟨List.forall_mem_cons.mpr ⟨Nat.le_refl _, fun token member => ?_⟩,
        List.pairwise_cons.mpr ⟨fun token member => ?_, increasing⟩⟩
      · exact Nat.le_trans (Nat.le_add_right _ _) (later token member)
      · exact Nat.lt_of_lt_of_le (Nat.lt_add_of_pos_right nonempty) (later token member)

/-- No token starts behind the end of the text. -/
theorem start_le_of_mem_scanFrom {start : Nat} {text : List Char} {token : Token}
    (member : token ∈ scanFrom start text) : token.start ≤ start + text.length := by
  fun_induction scanFrom start text with
  | case1 start text =>
      rw [List.mem_singleton.mp member]
      exact Nat.le_add_right _ _
  | case2 start text char rest skipped read length induction =>
      have fits := length_skipComments_le text
      have shorter := length_readKind_le char rest
      rw [skipped, List.length_cons] at fits
      rcases List.mem_cons.mp member with rfl | later
      · exact Nat.le_add_right _ _
      · have inside := induction later
        simp only [length, read] at inside
        omega

/-- A token that stands a number of characters later. -/
def shift (distance : Nat) (token : Token) : Token :=
  { token with start := token.start + distance }

theorem scanFrom_shift (start distance : Nat) (text : List Char) :
    scanFrom (start + distance) text = (scanFrom start text).map (shift distance) := by
  fun_induction scanFrom start text with
  | case1 start text skipped => rw [scanFrom_of_skipComments_nil skipped]; rfl
  | case2 start text char rest skipped read length induction =>
      rw [scanFrom.eq_def]
      split
      · rename_i empty
        cases skipped.symm.trans empty
      · rename_i first others scanned
        obtain ⟨rfl, rfl⟩ := List.cons.inj (skipped.symm.trans scanned)
        rw [List.map_cons, ← induction]
        have same : start + distance + length = start + length + distance := by omega
        simp only [read, length] at same ⊢
        rw [same]
        rfl

theorem scanFrom_eq_append (start : Nat) (text : List Char) :
    ∃ body stop, scanFrom start text = body ++ [stop] ∧
      stop.kind = .endOfInput ∧ ∀ token ∈ body, token.kind ≠ .endOfInput := by
  fun_induction scanFrom start text with
  | case1 start text => exact ⟨[], _, rfl, rfl, by simp⟩
  | case2 start text char rest skipped read length induction =>
      obtain ⟨body, stop, split, stops, goesOn⟩ := induction
      exact ⟨_ :: body, stop, by rw [split]; rfl, stops,
        List.forall_mem_cons.mpr ⟨readKind_fst_ne_endOfInput char rest, goesOn⟩⟩

/-! ## Names -/

/-- The name that a token of a kind stands for. -/
def name? : TokenKind → Option String
  | .ident name | .hash name => some name
  | _ => none

private theorem ofList_readName_ne_empty {text : List Char}
    (starts : Text.startsName text = true) :
    String.ofList (Text.readName text).1 ≠ "" := by
  intro empty
  have letters : (Text.readName text).1 = [] := by
    simpa [← String.toList_inj] using empty
  exact Text.readName_fst_ne_nil starts letters

private theorem name?_readNamed {text : List Char}
    (starts : Text.startsName text = true) :
    ∀ name ∈ name? (readNamed text).1, name ≠ "" := by
  have nonempty := ofList_readName_ne_empty starts
  unfold readNamed
  split
  · simp [name?]
  · rename_i read
    rw [read] at nonempty
    simpa [name?] using nonempty

private theorem name?_readKind (char : Char) (rest : List Char) :
    ∀ name ∈ name? (readKind char rest).1, name ≠ "" := by
  unfold readKind
  split
  · simp [name?]
  · split
    · split <;> simp [name?]
    · split
      · rename_i hash
        simp only [Bool.and_eq_true] at hash
        simpa [name?] using ofList_readName_ne_empty hash.2
      · split
        · rename_i starts
          exact name?_readNamed starts
        · split
          · rename_i kind found
            unfold punctuation? at found
            split at found
            all_goals
              cases found
              try simp [name?]
          · simp [name?]

theorem name?_scanFrom (start : Nat) (text : List Char) :
    ∀ token ∈ scanFrom start text, ∀ name ∈ name? token.kind, name ≠ "" := by
  fun_induction scanFrom start text with
  | case1 => simp [name?]
  | case2 start text char rest skipped read length induction =>
      exact List.forall_mem_cons.mpr ⟨name?_readKind char rest, induction⟩

end Token

end TreeSelectors
