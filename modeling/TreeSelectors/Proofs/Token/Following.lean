import Mathlib.Data.List.Basic
import Mathlib.Data.List.TakeWhile
import TreeSelectors.Proofs.Text.Endings
import TreeSelectors.Proofs.Token.Writing

/-!
# What may follow a token

A token ends where its lexeme ends.  So it is read alike whatever follows it, as long as
the text behind it starts with nothing that the lexeme could go on with.
-/

namespace TreeSelectors

namespace Token

open Text

variable {text rest : List Char} {char : Char}

/-- The kinds of tokens that take in what is inserted behind them: a quoted value that
is not closed, and a backslash that escapes nothing yet. -/
def Unfinished (kind : TokenKind) : Prop :=
  kind = .badString ∨ kind = .delim '\\'

/-- Behind a token of some kind, `other` may stand instead of `rest`: it starts with
nothing that the token could go on with. -/
structure MayFollow (kind : TokenKind) (rest other : List Char) : Prop where
  name : startsName other = true → startsName rest = true
  blank : startsWith isBlank other = true → startsWith isBlank rest = true
  paren : other.head? = some '(' → rest.head? = some '('
  star : other.head? = some '*' → rest.head? = some '*'
  unfinished : Unfinished kind → other.head? = rest.head?

theorem readNamed_append (text : List Char) :
    ∃ part, text = part ++ (readNamed text).2 ∧
      ∀ kind other, MayFollow kind (readNamed text).2 other →
        readNamed (part ++ other) = ((readNamed text).1, other) ∧
          (startsName text = true → startsName (part ++ other) = true) := by
  obtain ⟨part, same, reads⟩ := readName_append text
  have ended := startsName_readName_snd text
  have nonempty := @readName_fst_ne_nil text
  cases named : readName text with
  | mk name rest =>
      rw [named] at same reads ended nonempty
      by_cases paren : rest.head? = some '('
      · obtain ⟨after, rfl⟩ : ∃ after, rest = '(' :: after :=
          ⟨rest.tail, List.eq_cons_of_mem_head? paren⟩
        rw [readNamed_of_paren named]
        refine ⟨part ++ ['('], by rw [List.append_assoc]; exact same,
          fun kind other _ => ?_⟩
        have read := reads ('(' :: other) rfl fun blank => by cases blank
        rw [List.append_assoc, List.singleton_append]
        exact ⟨readNamed_of_paren read,
          fun starts => startsName_of_readName (nonempty starts) read⟩
      · rw [readNamed_of_not_paren named paren]
        refine ⟨part, same, fun kind other follows => ?_⟩
        have noName : startsName other = false :=
          ends_of_alike follows.name ended
        have read := reads other noName follows.blank
        exact ⟨readNamed_of_not_paren read fun starts => paren (follows.paren starts),
          fun starts => startsName_of_readName (nonempty starts) read⟩

private theorem startsName_cons_cases (starts : startsName (char :: rest) = true) :
    isNamePart char = true ∨ char = '\\' := by
  unfold startsName at starts
  split at starts
  · rename_i same
    cases same
    exact Or.inr rfl
  · rename_i same
    cases same
    exact Or.inl starts
  · cases starts

private theorem readKind_single (noBlank : Text.isBlank char = false)
    (noMark : ¬ (char = '"' ∨ char = '\''))
    (noHash : ¬ (char = '#' ∧ startsName rest = true))
    (noName : startsName (char :: rest) = false) :
    readKind char rest = ((punctuation? char).getD (.delim char), rest) := by
  rw [readKind, if_neg (by simp [noBlank]), if_neg (by simpa using noMark),
    if_neg (by simpa using noHash), if_neg (by simp [noName])]
  cases punctuation? char with
  | none => rfl
  | some kind => rfl

/-- A backslash that is a token by itself is no escape. -/
theorem readKind_backslash {kind : TokenKind}
    (read : readKind '\\' rest = (kind, rest)) : kind = .delim '\\' := by
  cases starts : startsName ('\\' :: rest) with
  | false =>
      rw [readKind_single rfl (by decide) (by simp) starts] at read
      exact (Prod.mk.inj read).1.symm
  | true =>
      cases rest with
      | nil => cases starts
      | cons next after =>
          have differs : next ≠ '\n' := by simpa [startsName] using starts
          have left : (readNamed ('\\' :: next :: after)).2 = next :: after := by
            rw [← readKind_of_startsName (Or.inr rfl) starts, read]
          -- The escape alone takes more than the backslash.
          have shorter : (readName ('\\' :: next :: after)).2.length ≤ after.length := by
            rw [readName_escape differs]
            exact Nat.le_trans (length_readName_le _) (length_readEscape_le next after)
          have longer : (next :: after).length ≤
              (readName ('\\' :: next :: after)).2.length := by
            have fits := length_readNamed_le ('\\' :: next :: after)
            rwa [left] at fits
          exact absurd (Nat.le_trans longer shorter) (Nat.not_succ_le_self _)

/-- A token that starts with `char` is read alike in front of whatever may follow it. -/
def ReadsAlike (char : Char) (text : List Char) : Prop :=
  ∃ part, text = part ++ (readKind char text).2 ∧
    ∀ other, MayFollow (readKind char text).1 (readKind char text).2 other →
      readKind char (part ++ other) = ((readKind char text).1, other)

namespace ReadsAlike

theorem blank (isBlank : isBlank char = true) : ReadsAlike char text := by
  have read (rest : List Char) :
      readKind char rest = (.whitespace, rest.dropWhile Text.isBlank) := by
    rw [readKind, if_pos isBlank]
  rw [ReadsAlike, read]
  refine ⟨text.takeWhile Text.isBlank, List.takeWhile_append_dropWhile.symm,
    fun other follows => ?_⟩
  have ends : ¬ startsWith Text.isBlank other = true := by
    intro starts
    have head := List.head?_dropWhile_not Text.isBlank text
    have stops := follows.blank starts
    unfold startsWith at stops
    split at head
    · rename_i next first
      rw [first, Option.any_some, head] at stops
      cases stops
    · rename_i none
      rw [none] at stops
      cases stops
  rw [read, List.dropWhile_append_of_pos]
  · cases other with
    | nil => rfl
    | cons next others => exact congrArg (Prod.mk _) (List.dropWhile_cons_of_neg ends)
  · exact fun next member => List.mem_takeWhile_imp member

theorem quoted (mark : char = '"' ∨ char = '\'') : ReadsAlike char text := by
  have noBlank : Text.isBlank char = false := by
    rcases mark with rfl | rfl <;> rfl
  have isMark : (decide (char = '"') || decide (char = '\'')) = true := by simpa using mark
  obtain ⟨part, same, -, reads⟩ := readQuoted_append char text
  cases known : readQuoted char text with
  | mk value rest =>
      rw [known] at same reads
      cases value with
      | some value =>
          have closed {text rest : List Char}
              (read : readQuoted char text = (some value, rest)) :
              readKind char text = (.string (String.ofList value), rest) := by
            simp [readKind, noBlank, isMark, read]
          rw [ReadsAlike, closed known]
          exact ⟨part, same, fun other _ =>
            closed (reads other fun impossible => by cases impossible)⟩
      | none =>
          have unclosed {text rest : List Char}
              (read : readQuoted char text = (none, rest)) :
              readKind char text = (.badString, rest) := by
            simp [readKind, noBlank, isMark, read]
          rw [ReadsAlike, unclosed known]
          exact ⟨part, same, fun other follows =>
            unclosed (reads other fun _ => follows.unfinished (Or.inl rfl))⟩

theorem hash (starts : startsName text = true) : ReadsAlike '#' text := by
  have read {rest : List Char} (starts : startsName rest = true) : readKind '#' rest =
      (.hash (String.ofList (readName rest).1), (readName rest).2) := by
    have noBlank : Text.isBlank '#' = false := rfl
    simp [readKind, noBlank, starts]
  obtain ⟨part, same, reads⟩ := readName_append text
  have ended := startsName_readName_snd text
  rw [ReadsAlike, read starts]
  refine ⟨part, same, fun other follows => ?_⟩
  have noName : startsName other = false :=
    ends_of_alike follows.name ended
  have named := reads other noName follows.blank
  have startsHere := startsName_of_readName (readName_fst_ne_nil starts) named
  rw [read startsHere, named]

theorem named (starts : startsName (char :: text) = true) : ReadsAlike char text := by
  have read := readKind_of_startsName (startsName_cons_cases starts) starts
  obtain ⟨part, same, reads⟩ := readNamed_append (char :: text)
  rw [ReadsAlike, read]
  cases part with
  | nil =>
      have shorter := readNamed_shortens starts
      rw [← List.nil_append (readNamed (char :: text)).2, ← same] at shorter
      exact absurd shorter (Nat.lt_irrefl _)
  | cons first part =>
      obtain ⟨rfl, tail⟩ := List.cons.inj same
      refine ⟨part, tail, fun other follows => ?_⟩
      obtain ⟨named, startsHere⟩ := reads _ other follows
      have startsHere := startsHere starts
      exact (readKind_of_startsName (startsName_cons_cases startsHere) startsHere).trans
        named

theorem single (noBlank : Text.isBlank char = false)
    (noMark : ¬ (char = '"' ∨ char = '\''))
    (noHash : ¬ (char = '#' ∧ startsName text = true))
    (noName : startsName (char :: text) = false) : ReadsAlike char text := by
  have read {rest : List Char} := @readKind_single rest char noBlank noMark
  rw [ReadsAlike, read noHash noName]
  refine ⟨[], rfl, fun other follows => read ?_ ?_⟩
  · exact fun hash => noHash ⟨hash.1, follows.name hash.2⟩
  · by_cases backslash : char = '\\'
    · subst backslash
      have head : other.head? = text.head? := follows.unfinished (Or.inr rfl)
      cases other with
      | nil => rfl
      | cons next others =>
          cases text with
          | nil => cases head
          | cons same more =>
              cases Option.some.inj head
              exact noName
    · refine startsName_eq_false (Bool.eq_false_iff.mpr fun isPart => ?_) backslash
      cases (startsName_of_isNamePart isPart).symm.trans noName

end ReadsAlike

theorem readsAlike (char : Char) (text : List Char) : ReadsAlike char text := by
  by_cases blank : isBlank char = true
  · exact .blank blank
  by_cases mark : char = '"' ∨ char = '\''
  · exact .quoted mark
  by_cases hash : char = '#' ∧ startsName text = true
  · obtain ⟨rfl, starts⟩ := hash
    exact .hash starts
  by_cases named : startsName (char :: text) = true
  · exact .named named
  · exact .single (Bool.eq_false_iff.mpr blank) mark hash (Bool.eq_false_iff.mpr named)

end Token

end TreeSelectors
