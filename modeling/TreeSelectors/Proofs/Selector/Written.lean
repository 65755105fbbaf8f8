import Mathlib.Tactic.ByContra
import TreeSelectors.Proofs.Nth.Notation
import TreeSelectors.Proofs.Selector.Dependence
import TreeSelectors.Proofs.Selector.Shape
import TreeSelectors.Proofs.Token.Writing
import TreeSelectors.Selector.Printer

/-!
# Written selectors derive themselves

The text that a well-formed selector is written as splits into tokens that
derive the selector.  Every piece is scanned in front of some rest, and the rest
has to be such that no token runs over the end of the piece.
-/

namespace TreeSelectors

namespace Grammar

open Token

/-! ## Scanning a piece -/

/-- In front of `rest`, the text is scanned to tokens in which arguments nest to
a depth, and which derive what they are to derive at all levels that suffice. -/
def Scans (text rest : List Char) (depth : Nat)
    (derives : Nat → List Token → Prop) : Prop :=
  ∀ start, ∃ segment,
    scanFrom start (text ++ rest) =
        segment ++ scanFrom (start + text.length) rest ∧
      Nests segment depth ∧ ∀ levels, depth ≤ levels → derives levels segment

namespace Scans

variable {first second text rest : List Char} {depth firstDepth secondDepth : Nat}
  {one another derives : Nat → List Token → Prop} {kind : TokenKind}

theorem nil (derived : ∀ levels, derives levels []) : Scans [] rest 0 derives :=
  fun _ => ⟨[], by simp, .nil, fun levels _ => derived levels⟩

/-- One piece after the other. -/
theorem seq (head : Scans first (second ++ rest) firstDepth one)
    (tail : Scans second rest secondDepth another) :
    Scans (first ++ second) rest (max firstDepth secondDepth) fun levels tokens =>
      ∃ start stop, tokens = start ++ stop ∧ one levels start ∧
        another levels stop := by
  intro start
  obtain ⟨left, scannedLeft, nestsLeft, derivesLeft⟩ := head start
  obtain ⟨right, scannedRight, nestsRight, derivesRight⟩ :=
    tail (start + first.length)
  refine ⟨left ++ right, ?_, nestsLeft.append nestsRight, ?_⟩
  · rw [List.append_assoc, scannedLeft, scannedRight, List.length_append,
      Nat.add_assoc, List.append_assoc]
  · intro levels fits
    obtain ⟨fitsLeft, fitsRight⟩ := Nat.max_le.mp fits
    exact ⟨left, right, rfl, derivesLeft levels fitsLeft,
      derivesRight levels fitsRight⟩

theorem mono (scans : Scans text rest depth one)
    (weaken : ∀ levels segment, depth ≤ levels → one levels segment →
      derives levels segment) :
    Scans text rest depth derives := by
  intro start
  obtain ⟨segment, scanned, nests, derived⟩ := scans start
  exact ⟨segment, scanned, nests, fun levels fits =>
    weaken levels segment fits (derived levels fits)⟩

/-- A single token. -/
theorem token (writes : Writes text rest kind)
    (flat : ∀ start, (⟨kind, start, text⟩ : Token).isFlat = true)
    (derived : ∀ levels start, derives levels [⟨kind, start, text⟩]) :
    Scans text rest 0 derives := by
  intro start
  refine ⟨[⟨kind, start, text⟩], writes.scanFrom_append start, .single (flat start), ?_⟩
  intro levels _
  exact derived levels start

end Scans

/-! ## What follows a piece -/

/-- Whether white space ends in front of some text. -/
def EndsBlank (rest : List Char) : Prop :=
  ∀ next ∈ rest.head?, Text.isBlank next = false

/-- A name that can be written. -/
def IsName (name : String) : Prop :=
  name ≠ "" ∧ '\n' ∉ name.toList

theorem IsName.toList_ne_nil {name : String} (isName : IsName name) :
    name.toList ≠ [] :=
  fun empty => isName.1 (String.toList_eq_nil_iff.mp empty)

/-- A name ends in front of a character that is no part of one. -/
theorem endsIdent_cons {char : Char} {rest : List Char}
    (noPart : Text.isNamePart char = false) (noEscape : char ≠ '\\')
    (noParen : char ≠ '(') : EndsIdent (char :: rest) := by
  refine ⟨startsName_eq_false noPart noEscape, ?_⟩
  intro same
  cases same
  exact noParen rfl

theorem endsIdent_nil : EndsIdent [] :=
  ⟨rfl, by simp⟩

/-! ## Attribute tests -/

section

variable {rest : List Char}

private theorem scans_operator {operator : AttributeOperator}
    (compares : operator ≠ .present) :
    Scans operator.sign rest 0 fun _ tokens => Operator tokens operator := by
  have equals (rest : List Char) :
      Scans ['='] rest 0 fun _ tokens => ∃ token, tokens = [token] ∧
        token.kind = .delim '=' :=
    .token (.sign rfl) (fun _ => rfl) fun _ _ => ⟨_, rfl, rfl⟩
  have signed {char : Char} (sign : isSign char = true)
      (found : Selector.Parser.operatorOf? char = some operator) :
      Scans [char, '='] rest 0 fun _ tokens => Operator tokens operator := by
    have first : Scans [char] ('=' :: rest) 0 fun _ tokens =>
        ∃ token, tokens = [token] ∧ token.kind = .delim char :=
      .token (.sign sign) (fun _ => isFlat_of_operatorOf? rfl found)
        fun _ _ => ⟨_, rfl, rfl⟩
    apply (first.seq (equals rest)).mono
    intro levels _ _ derives
    obtain ⟨_, _, rfl, ⟨token, rfl, kind⟩, equals, rfl, equalsKind⟩ := derives
    exact .signed kind found equalsKind
  cases operator with
  | present => exact absurd rfl compares
  | equals =>
      apply (equals rest).mono
      intro levels _ _ derives
      obtain ⟨token, rfl, kind⟩ := derives
      exact .equals kind
  | includes => exact signed rfl rfl
  | dashMatch => exact signed rfl rfl
  | startsWith => exact signed rfl rfl
  | endsWith => exact signed rfl rfl
  | contains => exact signed rfl rfl

theorem scans_space (ends : EndsBlank rest) :
    Scans [' '] rest 0 fun _ tokens => tokens ≠ [] ∧ Blank tokens :=
  .token (.space ends) (fun _ => rfl) fun _ _ => by simp [Blank]

/-- A run of parts of names is one name. -/
theorem scans_run {run : List Char} (parts : run.all Text.isNamePart = true)
    (nonempty : run ≠ []) (ends : EndsIdent rest) :
    Scans run rest 0 fun _ tokens =>
      ∃ token, tokens = [token] ∧ token.kind = .ident (String.ofList run) ∧
        token.text = run := by
  have writes := @Writes.word rest (String.ofList run)
    (by rw [String.toList_ofList]; exact parts)
    (by simpa [← String.toList_inj] using nonempty) ends
  rw [String.toList_ofList] at writes
  exact .token writes (fun _ => rfl) fun _ _ => ⟨_, rfl, rfl, rfl⟩

/-- The text of a case flag. -/
def flagText : CaseFlag → List Char
  | .unstated => []
  | .sensitive => [' ', 's']
  | .insensitive => [' ', 'i']

private theorem scans_flag (case : CaseFlag) :
    Scans (flagText case) (']' :: rest) 0 fun _ tokens =>
      ∃ blank flags, tokens = blank ++ flags ∧ Blank blank ∧ Flag flags case := by
  have stops : EndsIdent (']' :: rest) := endsIdent_cons rfl (by decide) (by decide)
  have flagged {letter : Char} {case : CaseFlag}
      (notBlank : Text.isBlank letter = false) (part : Text.isNamePart letter = true)
      (derived : ∀ token : Token, token.kind = .ident (String.ofList [letter]) →
        Flag [token] case) :
      Scans [' ', letter] (']' :: rest) 0 fun _ tokens =>
        ∃ blank flags, tokens = blank ++ flags ∧ Blank blank ∧ Flag flags case := by
    have space := @scans_space (letter :: ']' :: rest) fun next member => by
      cases member
      exact notBlank
    have named := @scans_run (']' :: rest) [letter] (by simp [part]) (by simp) stops
    apply (space.seq named).mono
    intro levels _ _ derives
    obtain ⟨blank, _, rfl, ⟨-, isBlank⟩, token, rfl, kind, -⟩ := derives
    exact ⟨blank, [token], rfl, isBlank, derived token kind⟩
  cases case with
  | unstated => exact .nil fun _ => ⟨[], [], rfl, blank_nil, .unstated⟩
  | sensitive =>
      exact flagged rfl rfl fun token kind => .sensitive kind (by decide) blank_nil
  | insensitive =>
      exact flagged rfl rfl fun token kind => .insensitive kind (by decide) blank_nil

theorem IsName.head?_writeName {name : String} (isName : IsName name) :
    (Text.writeName name.toList).head?.any Char.isDigit = false := by
  obtain ⟨char, others, written, ⟨-, noDigit⟩ | ⟨rfl, -⟩⟩ :=
    Text.writeName_cases isName.toList_ne_nil
  · simpa [written] using noDigit
  · simp [written]

theorem scans_name {name : String} (isName : IsName name) (ends : EndsIdent rest) :
    Scans (Text.writeName name.toList) rest 0 fun _ tokens =>
      ∃ token, tokens = [token] ∧ token.kind = .ident name ∧
        token.startsWithDigit 0 = false := by
  have writes := Writes.ident isName.toList_ne_nil isName.2 ends
  rw [String.ofList_toList] at writes
  exact .token writes (fun _ => rfl) fun _ _ =>
    ⟨_, rfl, rfl, isName.head?_writeName⟩

private theorem scans_quoted (value : String) :
    Scans (Text.writeQuoted value.toList) rest 0 fun _ tokens =>
      ∃ token, tokens = [token] ∧ token.kind = .string value := by
  have writes := @Writes.quoted rest value.toList
  rw [String.ofList_toList] at writes
  exact .token writes (fun _ => rfl) fun _ _ => ⟨_, rfl, rfl⟩

theorem scans_punctuation {char : Char} {kind : TokenKind}
    (found : punctuation? char = some kind)
    (flat : ∀ start, (⟨kind, start, [char]⟩ : Token).isFlat = true) :
    Scans [char] rest 0 fun _ tokens =>
      ∃ token, tokens = [token] ∧ token.kind = kind :=
  .token (.punctuation found) flat fun _ _ => ⟨_, rfl, rfl⟩

theorem scans_attribute {test : AttributeTest} (formed : test.Formed)
    (isName : IsName test.name) :
    Scans test.write rest 0 fun _ tokens =>
      ∃ bracket others, tokens = bracket :: others ∧ bracket.kind = .leftBracket ∧
        Attribute others test := by
  obtain ⟨name, operator, value, case⟩ := test
  have opening (rest : List Char) := @scans_punctuation rest '[' _ rfl fun _ => rfl
  have closing := @scans_punctuation rest ']' _ rfl fun _ => rfl
  cases value with
  | none =>
      obtain ⟨rfl, rfl⟩ := formed
      have named := @scans_name (']' :: rest) name isName
        (endsIdent_cons rfl (by decide) (by decide))
      have text : AttributeTest.write ⟨name, .present, none, .unstated⟩ =
          ['['] ++ (Text.writeName name.toList ++ [']']) := by
        simp [AttributeTest.write]
      rw [text]
      apply ((opening _).seq (named.seq closing)).mono
      intro levels _ _ derives
      obtain ⟨_, _, rfl, ⟨bracket, rfl, opens⟩, _, _, rfl, ⟨token, rfl, kind, -⟩,
        close, rfl, closes⟩ := derives
      exact ⟨bracket, [token, close], rfl, opens,
        .present blank_nil kind blank_nil closes⟩
  | some value =>
      have text : AttributeTest.write ⟨name, operator, some value, case⟩ =
          ['['] ++ (Text.writeName name.toList ++ (operator.sign ++
            (Text.writeQuoted value.toList ++ (flagText case ++ [']'])))) := by
        cases case <;> simp [AttributeTest.write, flagText]
      rw [text]
      have flagged := (scans_flag case).seq closing
      have valued := (scans_quoted value).seq flagged
      have behind := (@scans_operator _ operator formed).seq valued
      have stops : EndsIdent (operator.sign ++ (Text.writeQuoted value.toList ++
          (flagText case ++ [']'])) ++ rest) := by
        cases operator with
        | present => exact absurd rfl formed
        | _ => exact endsIdent_cons rfl (by decide) (by decide)
      have named := scans_name isName stops
      apply ((opening _).seq (named.seq behind)).mono
      intro levels _ _ derives
      obtain ⟨_, _, rfl, ⟨bracket, rfl, opens⟩, _, _, rfl, ⟨token, rfl, kind, -⟩,
        sign, _, rfl, compares, _, _, rfl, ⟨string, rfl, stringKind⟩, _, _, rfl,
        ⟨blank, flags, rfl, isBlank, flag⟩, close, rfl, closes⟩ := derives
      have comparison : Comparison name (sign ++ [] ++ string :: blank ++ flags)
          ⟨name, operator, some value, case⟩ :=
        .compare compares blank_nil (Or.inr stringKind) isBlank flag
      have derived := Attribute.comparison blank_nil kind blank_nil comparison closes
      exact ⟨bracket, _, rfl, opens, by simpa using derived⟩

/-! ## Functions -/

/-- A function around a text. -/
theorem scans_call {word : String} {inner : List Char} {depth : Nat}
    {derives : Nat → List Token → Prop}
    (parts : word.toList.all Text.isNamePart = true) (nonempty : word ≠ "")
    (scans : Scans inner (')' :: rest) depth derives) :
    Scans (word.toList ++ '(' :: inner ++ [')']) rest
      ((SelectorFunction.ofName? (Text.foldCase word)).isSome.toNat + depth)
      fun _ tokens => ∃ token list close, tokens = token :: (list ++ [close]) ∧
        token.kind = .function word ∧ close.kind = .rightParen ∧
        ∀ levels, depth ≤ levels → derives levels list := by
  intro start
  have opens : Writes (word.toList ++ ['(']) (inner ++ ')' :: rest) (.function word) :=
    .function parts nonempty
  have closes : Writes [')'] rest .rightParen := .punctuation rfl
  have opened := opens.scanFrom_append start
  obtain ⟨list, scanned, nests, derived⟩ :=
    scans (start + (word.toList ++ ['(']).length)
  have closed := closes.scanFrom_append
    (start + (word.toList ++ ['(']).length + inner.length)
  let function : Token := ⟨.function word, start, word.toList ++ ['(']⟩
  let close : Token :=
    ⟨.rightParen, start + (word.toList ++ ['(']).length + inner.length, [')']⟩
  have nested : Nests (function :: (list ++ [close])) _ := .function rfl nests rfl
  refine ⟨function :: (list ++ [close]), ?_, nested, fun levels _ =>
    ⟨function, list, close, rfl, rfl, rfl, derived⟩⟩
  have split : word.toList ++ '(' :: inner ++ [')'] ++ rest =
      word.toList ++ ['('] ++ (inner ++ ')' :: rest) := by
    simp
  have length : (word.toList ++ '(' :: inner ++ [')']).length =
      (word.toList ++ ['(']).length + inner.length + [')'].length := by
    simp
    omega
  rw [split, opened, scanned, length, ← Nat.add_assoc, ← Nat.add_assoc]
  change function :: (list ++ scanFrom _ ([')'] ++ rest)) = _
  rw [closed]
  simp [function, close]

private theorem isNamePart_of_isNotation {char : Char}
    (written : Nth.isNotation char = true)
    (unsigned : char ≠ '+') : Text.isNamePart char = true := by
  simp only [Nth.isNotation, Bool.or_eq_true, decide_eq_true_eq] at written
  obtain ((digit | rfl) | plus) | rfl := written
  · simp [Text.isNamePart, Char.isAlphanum, digit]
  · decide
  · exact absurd plus unsigned
  · decide

/-- A run of parts of names in a formula ends at a sign or behind the formula. -/
theorem endsIdent_dropWhile {text : List Char}
    (written : ∀ char ∈ text, Nth.isNotation char = true) :
    EndsIdent (text.dropWhile Text.isNamePart ++ ')' :: rest) := by
  cases left : text.dropWhile Text.isNamePart with
  | nil => exact endsIdent_cons rfl (by decide) (by decide)
  | cons next more =>
      have noPart : Text.isNamePart next = false := by
        simpa [left] using List.head?_dropWhile_not Text.isNamePart text
      have member : next ∈ text := by
        apply (List.dropWhile_sublist Text.isNamePart).mem
        rw [left]
        exact List.mem_cons_self
      have plus : next = '+' := by
        by_contra unsigned
        rw [isNamePart_of_isNotation (written next member) unsigned] at noPart
        cases noPart
      subst plus
      exact endsIdent_cons rfl (by decide) (by decide)

/-- The tokens are parts of a formula, and make up its text. -/
def FormulaParts (text : List Char) (tokens : List Token) : Prop :=
  (∀ token ∈ tokens, Selector.Parser.isFormulaPart token.kind = true) ∧
    tokens.flatMap Token.text = text

theorem FormulaParts.cons {first text : List Char} {token : Token}
    {tokens : List Token} (part : Selector.Parser.isFormulaPart token.kind = true)
    (own : token.text = first) (parts : FormulaParts text tokens) :
    FormulaParts (first ++ text) (token :: tokens) := by
  refine ⟨List.forall_mem_cons.mpr ⟨part, parts.1⟩, ?_⟩
  rw [List.flatMap_cons, own, parts.2]

private theorem scans_formulaText {text : List Char}
    (written : ∀ char ∈ text, Nth.isNotation char = true) :
    Scans text (')' :: rest) 0 fun _ tokens => FormulaParts text tokens := by
  -- The longest run of parts of names is one token, and so is every sign.
  induction text using (measure List.length).wf.induction with
  | _ text induction =>
  cases text with
  | nil => exact .nil fun _ => ⟨by simp, rfl⟩
  | cons char others =>
      obtain ⟨first, behind⟩ := List.forall_mem_cons.mp written
      by_cases plus : char = '+'
      · subst plus
        have sign : Scans ['+'] (others ++ ')' :: rest) 0 fun _ tokens =>
            ∃ token, tokens = [token] ∧ token.kind = .delim '+' ∧ token.text = ['+'] :=
          .token (.sign rfl) (fun _ => rfl) fun _ _ => ⟨_, rfl, rfl, rfl⟩
        apply (sign.seq (induction others (Nat.lt_succ_self _) behind)).mono
        intro levels _ _ derives
        obtain ⟨_, tokens, rfl, ⟨token, rfl, kind, own⟩, parts⟩ := derives
        exact parts.cons (by rw [kind]; rfl) own
      · have split := @List.takeWhile_append_dropWhile _ Text.isNamePart others
        have ends := @endsIdent_dropWhile rest others behind
        have run : (char :: others.takeWhile Text.isNamePart).all Text.isNamePart := by
          rw [List.all_cons, isNamePart_of_isNotation first plus, List.all_takeWhile]
          rfl
        have shorter : (others.dropWhile Text.isNamePart).length <
            (char :: others).length :=
          Nat.lt_succ_of_le (List.dropWhile_sublist _).length_le
        have left := induction _ shorter fun next member =>
          behind next ((List.dropWhile_sublist _).mem member)
        have whole := (scans_run run (List.cons_ne_nil _ _) ends).seq left
        rw [List.cons_append, split] at whole
        apply whole.mono
        intro levels _ _ derives
        obtain ⟨_, tokens, rfl, ⟨token, rfl, kind, own⟩, parts⟩ := derives
        have joined := parts.cons (by rw [kind]; rfl) own
        rwa [List.cons_append, split] at joined

end

/-! ## Conditions -/

section

variable {σ : Type} {aliases : AliasSource σ} {known : σ} {rest : List Char}

theorem scans_colon :
    Scans [':'] rest 0 fun _ tokens =>
      ∃ colon, tokens = [colon] ∧ colon.kind = .colon :=
  scans_punctuation rfl fun _ => rfl

theorem scans_id {name : String} (isName : IsName name) (ends : EndsIdent rest) :
    Scans (Simple.write (.id name)) rest 0 fun levels tokens =>
      Condition (.upTo aliases levels) known tokens (.id name) known := by
  have writes := Writes.hash isName.toList_ne_nil isName.2 ends.1
  rw [String.ofList_toList] at writes
  exact .token writes (fun _ => rfl) fun _ _ => .id rfl isName.head?_writeName

theorem scans_className {name : String} (isName : IsName name)
    (ends : EndsIdent rest) :
    Scans (Simple.write (.className name)) rest 0 fun levels tokens =>
      Condition (.upTo aliases levels) known tokens (.className name) known := by
  have dot : Scans ['.'] (Text.writeName name.toList ++ rest) 0 fun _ tokens =>
      ∃ token, tokens = [token] ∧ token.kind = .delim '.' :=
    .token (.sign rfl) (fun _ => rfl) fun _ _ => ⟨_, rfl, rfl⟩
  apply (dot.seq (scans_name isName ends)).mono
  intro levels _ _ derives
  obtain ⟨_, _, rfl, ⟨dot, rfl, kind⟩, token, rfl, named, plain⟩ := derives
  exact .className kind named plain

theorem scans_attributeCondition {test : AttributeTest} (formed : test.Formed)
    (isName : IsName test.name) :
    Scans (Simple.write (.attribute test)) rest 0 fun levels tokens =>
      Condition (.upTo aliases levels) known tokens (.attribute test) known := by
  apply (scans_attribute formed isName).mono
  intro levels _ _ derives
  obtain ⟨bracket, others, rfl, kind, derived⟩ := derives
  exact .attribute kind derived

theorem scans_plain {plain : PlainClass} (ends : EndsIdent rest) :
    Scans (Simple.write (.plain plain)) rest 0 fun levels tokens =>
      Condition (.upTo aliases levels) known tokens (.plain plain) known := by
  have parts : plain.name.toList.all Text.isNamePart = true := by
    cases plain <;> decide
  have nonempty : plain.name ≠ "" := by
    cases plain <;> decide
  have found : PlainClass.ofName? (Text.foldCase plain.name) = some plain := by
    cases plain <;> decide
  have named : Scans plain.name.toList rest 0 fun _ tokens =>
      ∃ token, tokens = [token] ∧ token.kind = .ident plain.name :=
    .token (.word parts nonempty ends) (fun _ => rfl) fun _ _ => ⟨_, rfl, rfl⟩
  apply (scans_colon.seq named).mono
  intro levels _ _ derives
  obtain ⟨_, _, rfl, ⟨colon, rfl, kind⟩, token, rfl, named⟩ := derives
  exact .pseudo kind (.plain named found)

theorem scans_pseudoElement {name : String} (isName : IsName name)
    (folded : Text.foldCase name = name) (ends : EndsIdent rest) :
    Scans (Simple.write (.pseudoElement name)) rest 0 fun levels tokens =>
      Condition (.upTo aliases levels) known tokens (.pseudoElement name) known := by
  apply (scans_colon.seq (scans_colon.seq (scans_name isName ends))).mono
  intro levels _ _ derives
  obtain ⟨_, _, rfl, ⟨first, rfl, firstKind⟩, _, _, rfl, ⟨second, rfl, secondKind⟩,
    token, rfl, named, -⟩ := derives
  have derived : Pseudo (.upTo aliases levels) known [second, token]
      (.pseudoElement (Text.foldCase name)) known :=
    .element secondKind named
  rw [folded] at derived
  exact .pseudo firstKind derived

theorem scans_nth {counting : Counting} {formula : Nth} :
    Scans (Simple.write (.nth counting formula)) rest 0 fun levels tokens =>
      Condition (.upTo aliases levels) known tokens (.nth counting formula) known := by
  have parts : counting.name.toList.all Text.isNamePart = true := by
    cases counting <;> decide
  have nonempty : counting.name ≠ "" := by
    cases counting <;> decide
  have found : Counting.ofName? (Text.foldCase counting.name) = some counting := by
    cases counting <;> decide
  have written := @Nth.isNotation_of_mem_write formula
  have call := scans_call parts nonempty (@scans_formulaText rest _ written)
  rw [Selector.Parser.selectorFunction_of_counting found] at call
  have parsed : Nth.parse formula.write = some formula := by
    rw [Nth.parse, Nth.compact_eq_self written, Nth.readCompact_write]
  apply (scans_colon.seq call).mono
  intro levels _ _ derives
  obtain ⟨_, _, rfl, ⟨colon, rfl, kind⟩, token, list, close, rfl, named, closes,
    derived⟩ := derives
  obtain ⟨formulaParts, joined⟩ := derived 0 (Nat.le_refl _)
  refine .pseudo kind (.nth named found (.parts formulaParts closes ?_))
  rw [joined]
  exact parsed

theorem scans_functional {function : SelectorFunction} {argument : Selector}
    {depth : Nat}
    (scans : Scans (Selector.write argument) (')' :: rest) depth fun levels tokens =>
      ListOf (.upTo aliases levels) (function = .has) known tokens argument known) :
    Scans (Simple.write (.functional function argument)) rest (1 + depth)
      fun levels tokens => Condition (.upTo aliases levels) known tokens
        (.functional function argument) known := by
  have parts : function.name.toList.all Text.isNamePart = true := by
    cases function <;> decide
  have nonempty : function.name ≠ "" := by
    cases function <;> decide
  have found : SelectorFunction.ofName? (Text.foldCase function.name) =
      some function := by
    cases function <;> decide
  have call := scans_call parts nonempty scans
  rw [found] at call
  have whole := scans_colon.seq call
  simp only [Option.isSome_some, Bool.toNat_true, Nat.zero_max] at whole
  apply whole.mono
  intro levels _ fits derives
  obtain ⟨_, _, rfl, ⟨colon, rfl, kind⟩, token, list, close, rfl, named, closes,
    derived⟩ := derives
  cases levels with
  | zero => omega
  | succ levels =>
      have listed := derived levels (by omega)
      exact .pseudo kind (.functional named found ⟨list, close, rfl, closes, listed⟩)

end

end Grammar

end TreeSelectors
