import TreeSelectors.Proofs.Text.Names
import TreeSelectors.Proofs.Text.Quoted
import TreeSelectors.Proofs.Token.Scanning

/-!
# Tokens of written text

Each kind of token is read from the text that it is written as, in front of
anything that does not go on with the token.
-/

namespace TreeSelectors

namespace Token

open Text

variable {char : Char} {name rest : List Char}

/-! ## One token -/

/-- Whether a character stands for itself, outside of names. -/
def isSign (char : Char) : Bool :=
  char ∈ ['.', '*', '>', '+', '~', '=', '|', '^', '$']

/-- Whether a written identifier ends in front of some text. -/
def EndsIdent (rest : List Char) : Prop :=
  startsName rest = false ∧ rest.head? ≠ some '('

theorem head?_ne_lineFeed (sameLine : '\n' ∉ name) : name.head? ≠ some '\n' :=
  fun starts => sameLine (List.mem_of_mem_head? starts)

theorem startsName_eq_false (noPart : isNamePart char = false)
    (noEscape : char ≠ '\\') : startsName (char :: rest) = false :=
  (startsName_cons noEscape).trans noPart

private theorem readKind_sign (sign : isSign char = true) :
    readKind char rest = (.delim char, rest) := by
  simp only [isSign, List.mem_cons, List.not_mem_nil, or_false, decide_eq_true_eq]
    at sign
  have plain : isNamePart char = false ∧ char ≠ '\\' := by
    rcases sign with rfl | rfl | rfl | rfl | rfl | rfl | rfl | rfl | rfl
    all_goals decide
  unfold readKind
  rw [startsName_eq_false plain.1 plain.2]
  rcases sign with rfl | rfl | rfl | rfl | rfl | rfl | rfl | rfl | rfl
  all_goals rfl

private theorem readKind_punctuation {kind : TokenKind}
    (found : punctuation? char = some kind) : readKind char rest = (kind, rest) := by
  have known : char ∈ ['(', ')', ',', ':', '[', ']'] := by
    unfold punctuation? at found
    split at found
    all_goals first | decide | cases found
  simp only [List.mem_cons, List.not_mem_nil, or_false] at known
  have plain : isNamePart char = false ∧ char ≠ '\\' := by
    rcases known with rfl | rfl | rfl | rfl | rfl | rfl
    all_goals decide
  unfold readKind
  rw [startsName_eq_false plain.1 plain.2]
  rcases known with rfl | rfl | rfl | rfl | rfl | rfl
  all_goals
    cases found
    rfl

private theorem readKind_space (ends : ∀ next ∈ rest.head?, isBlank next = false) :
    readKind ' ' rest = (.whitespace, rest) := by
  have kept : rest.dropWhile isBlank = rest := by
    cases rest with
    | nil => rfl
    | cons next others => exact List.dropWhile_cons_of_neg (by simp [ends next rfl])
  unfold readKind
  rw [kept]
  rfl

private theorem readKind_quoted {value : List Char} :
    readKind '"' (value.flatMap writeQuotedPart ++ '"' :: rest) =
      (.string (String.ofList value), rest) := by
  unfold readKind
  rw [readQuoted_flatMap_append]
  rfl

/-- The characters that a token other than a name starts with. -/
theorem isBlank_of_startsName (starts : isNamePart char = true ∨ char = '\\') :
    isBlank char = false ∧ char ∉ ['"', '\'', '#', '/'] := by
  constructor
  · apply Bool.eq_false_iff.mpr
    intro blank
    simp only [isBlank, Bool.or_eq_true, decide_eq_true_eq] at blank
    rcases blank with (((rfl | rfl) | rfl) | rfl) | rfl
    all_goals exact absurd starts (by decide)
  · intro member
    simp only [List.mem_cons, List.not_mem_nil, or_false] at member
    rcases member with rfl | rfl | rfl | rfl
    all_goals exact absurd starts (by decide)

theorem ne_slash_of_startsName (starts : isNamePart char = true ∨ char = '\\') :
    char ≠ '/' := by
  rintro rfl
  exact absurd starts (by decide)

theorem readKind_of_startsName (starts : isNamePart char = true ∨ char = '\\')
    (named : startsName (char :: rest) = true) :
    readKind char rest = readNamed (char :: rest) := by
  obtain ⟨notBlank, special⟩ := isBlank_of_startsName starts
  simp only [List.mem_cons, List.not_mem_nil, or_false, not_or] at special
  unfold readKind
  simp [notBlank, special, named]

theorem readNamed_of_not_paren {text : List Char}
    (read : readName text = (name, rest)) (noParen : rest.head? ≠ some '(') :
    readNamed text = (.ident (String.ofList name), rest) := by
  unfold readNamed
  rw [read]
  split
  · rename_i same
    cases same
    exact absurd rfl noParen
  · rename_i same
    cases same
    rfl

theorem readNamed_of_paren {text : List Char}
    (read : readName text = (name, '(' :: rest)) :
    readNamed text = (.function (String.ofList name), rest) := by
  unfold readNamed
  rw [read]
  rfl

/-! ## Written tokens -/

/-- In front of `rest`, the text is one token of the given kind. -/
def Writes (text rest : List Char) (kind : TokenKind) : Prop :=
  ∃ char more, text = char :: more ∧ char ≠ '/' ∧
    readKind char (more ++ rest) = (kind, rest)

namespace Writes

variable {text : List Char} {kind : TokenKind}

theorem scanFrom_append (writes : Writes text rest kind) (start : Nat) :
    scanFrom start (text ++ rest) =
      ⟨kind, start, text⟩ :: scanFrom (start + text.length) rest := by
  obtain ⟨char, more, rfl, noComment, read⟩ := writes
  have skipped : skipComments (char :: (more ++ rest)) = char :: (more ++ rest) := by
    rw [skipComments]
    intro after same
    exact noComment (List.cons.inj same).1
  exact @scanFrom_eq_cons start [] more rest char kind skipped read

theorem sign (isSign : isSign char = true) : Writes [char] rest (.delim char) := by
  refine ⟨char, [], rfl, ?_, readKind_sign isSign⟩
  rintro rfl
  cases isSign

theorem punctuation (found : punctuation? char = some kind) :
    Writes [char] rest kind := by
  refine ⟨char, [], rfl, ?_, readKind_punctuation found⟩
  rintro rfl
  cases found

theorem space (ends : ∀ next ∈ rest.head?, isBlank next = false) :
    Writes [' '] rest .whitespace :=
  ⟨' ', [], rfl, by decide, readKind_space ends⟩

theorem quoted {value : List Char} :
    Writes (writeQuoted value) rest (.string (String.ofList value)) := by
  refine ⟨'"', value.flatMap writeQuotedPart ++ ['"'], rfl, by decide, ?_⟩
  rw [List.append_assoc]
  exact readKind_quoted

theorem ident (nonempty : name ≠ []) (sameLine : '\n' ∉ name)
    (ends : EndsIdent rest) :
    Writes (writeName name) rest (.ident (String.ofList name)) := by
  obtain ⟨char, others, written, starts⟩ := exists_writeName_cons nonempty
  have named := @startsName_writeName_append _ rest nonempty (head?_ne_lineFeed sameLine)
  have read := readName_writeName_append nonempty sameLine ends.1
  rw [written] at named read
  refine ⟨char, others, written, ne_slash_of_startsName starts, ?_⟩
  exact (readKind_of_startsName starts named).trans (readNamed_of_not_paren read ends.2)

theorem hash (nonempty : name ≠ []) (sameLine : '\n' ∉ name)
    (ends : startsName rest = false) :
    Writes ('#' :: writeName name) rest (.hash (String.ofList name)) := by
  refine ⟨'#', writeName name, rfl, by decide, ?_⟩
  have blank : isBlank '#' = false := by decide
  unfold readKind
  simp [blank, startsName_writeName_append nonempty (head?_ne_lineFeed sameLine),
    readName_writeName_append nonempty sameLine ends]

private theorem isNamePart_cons_of_word {word : String}
    (parts : word.toList.all isNamePart = true) (nonempty : word ≠ "") :
    ∃ first others, word.toList = first :: others ∧ isNamePart first = true ∧
      ∀ char ∈ first :: others, isNamePart char = true := by
  have nonempty : word.toList ≠ [] := fun empty =>
    nonempty (String.toList_eq_nil_iff.mp empty)
  obtain ⟨first, others, split⟩ := List.exists_cons_of_ne_nil nonempty
  have all := List.all_eq_true.mp parts
  rw [split] at all
  exact ⟨first, others, split, all first List.mem_cons_self, all⟩

/-- A word of parts of names needs no escapes. -/
theorem word {word : String} (parts : word.toList.all isNamePart = true)
    (nonempty : word ≠ "") (ends : EndsIdent rest) :
    Writes word.toList rest (.ident word) := by
  obtain ⟨first, others, split, starts, all⟩ :=
    isNamePart_cons_of_word parts nonempty
  have noComment := ne_slash_of_startsName (Or.inl starts)
  have read := readName_parts_append all ends.1
  have named := readNamed_of_not_paren read ends.2
  rw [← split, String.ofList_toList] at named
  refine ⟨first, others, split, noComment, ?_⟩
  rw [readKind_of_startsName (Or.inl starts) (startsName_of_isNamePart starts)]
  rw [split] at named
  exact named

theorem function {word : String} (parts : word.toList.all isNamePart = true)
    (nonempty : word ≠ "") :
    Writes (word.toList ++ ['(']) rest (.function word) := by
  obtain ⟨first, others, split, starts, all⟩ :=
    isNamePart_cons_of_word parts nonempty
  have noComment := ne_slash_of_startsName (Or.inl starts)
  have ends : startsName ('(' :: rest) = false := rfl
  have read := readName_parts_append all ends
  have named := readNamed_of_paren read
  rw [← split, String.ofList_toList, split] at named
  refine ⟨first, others ++ ['('], by rw [split]; rfl, noComment, ?_⟩
  rw [readKind_of_startsName (Or.inl starts) (startsName_of_isNamePart starts)]
  simpa using named

end Writes

end Token

end TreeSelectors
