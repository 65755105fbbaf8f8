import Mathlib.Data.List.Nodup
import TreeSelectors.Proofs.Nth.Notation
import TreeSelectors.Proofs.Selector.Limits
import TreeSelectors.Proofs.Token.Comments

/-!
# Comments in selectors

A comment that is inserted in front of a token becomes part of its text.  The grammar
looks at the text of a token in two places: a name must not start with a digit, and a
formula is read from the text of its tokens.  Everywhere else comments make no
difference; with one in front of it, a number passes for a name, and a formula with one
inside is no formula.
-/

namespace TreeSelectors

open Grammar Reading

namespace Token

variable {token next : Token} {inserted : List Char} {offset : Nat} {text : String}
  {before after : List Token}

/-! ## Tokens with a comment -/

@[simp] theorem respell_kind : (respell inserted offset token).kind = token.kind := by
  unfold respell
  split
  · rfl
  · split
    · rfl
    · rfl

theorem respell_text_of_ne (different : token.start ≠ offset) :
    (respell inserted offset token).text = token.text := by
  unfold respell
  split
  · rfl
  · rfl

theorem respell_text_of_eq (same : token.start = offset) :
    (respell inserted offset token).text = inserted ++ token.text := by
  rw [respell, if_neg (Nat.not_lt.mpr (Nat.le_of_eq same.symm)), if_pos same]

/-- What was a token before characters were inserted at an offset. -/
def unspell (inserted : List Char) (offset : Nat) (token : Token) : Token :=
  if token.start < offset then token
  else if token.start = offset then
    { token with text := token.text.drop inserted.length }
  else { token with start := token.start - inserted.length }

@[simp] theorem unspell_respell (inserted : List Char) (offset : Nat) (token : Token) :
    unspell inserted offset (respell inserted offset token) = token := by
  by_cases earlier : token.start < offset
  · rw [respell, if_pos earlier, unspell, if_pos earlier]
  · by_cases same : token.start = offset
    · rw [respell, if_neg earlier, if_pos same, unspell, if_neg earlier, if_pos same]
      simp
    · have later : ¬ (token.start + inserted.length < offset) := by omega
      have apart : token.start + inserted.length ≠ offset := by omega
      rw [respell, if_neg earlier, if_neg same, unspell, shift, if_neg later,
        if_neg apart]
      simp

/-- No two tokens of a text start at one place. -/
theorem eq_of_start_eq (scanned : scan text = before ++ next :: after)
    (member : token ∈ scan text) (same : token.start = next.start) : token = next := by
  have increasing := (scanFrom_increasing 0 text.toList).2
  have distinct : ((scan text).map Token.start).Nodup := by
    rw [List.Nodup, List.pairwise_map]
    exact increasing.imp Nat.ne_of_lt
  exact List.inj_on_of_nodup_map distinct member (by simp [scanned]) same

/-- A text is split in front of one of its tokens in one way. -/
theorem eq_of_split (scanned : scan text = before ++ next :: after)
    {left right : List Token} (split : scan text = left ++ next :: right) :
    left = before := by
  have increasing := (scanFrom_increasing 0 text.toList).2
  rw [show scanFrom 0 text.toList = left ++ next :: right from split,
    List.pairwise_append, List.pairwise_cons] at increasing
  obtain ⟨-, ⟨later, -⟩, earlier⟩ := increasing
  have notLeft : next ∉ left := fun member =>
    Nat.lt_irrefl _ (earlier next member next List.mem_cons_self)
  have notRight : next ∉ right := fun member => Nat.lt_irrefl _ (later next member)
  exact ((List.append_cons_inj_of_notMem notLeft notRight).mp
    (split.symm.trans scanned)).1

/-- Whether a token would be a name or a hash if it did not start with a digit. -/
def isNumber (token : Token) : Bool :=
  match token.kind with
  | .ident _ => token.startsWithDigit 0
  | .hash _ => token.startsWithDigit 1
  | _ => false

private theorem startsWithDigit_comment {body rest : List Char} {skipped : Nat}
    (few : skipped ≤ 1) (token : Token)
    (text : token.text = comment body ++ rest) :
    token.startsWithDigit skipped = false := by
  rw [startsWithDigit, text]
  obtain rfl | rfl : skipped = 0 ∨ skipped = 1 := by omega
  · rfl
  · rfl

end Token

namespace Grammar

open Token

/-- The tokens end within a formula: behind a positional pseudo-class, and possibly
behind some parts of its formula. -/
def InFormula (tokens : List Token) : Prop :=
  ∃ front call parts name, tokens = front ++ call :: parts ∧
    call.kind = .function name ∧
    (Counting.ofName? (Text.foldCase name)).isSome ∧
    ∀ token ∈ parts, Selector.Parser.isFormulaPart token.kind = true

/-- The parts of a formula are the tokens in front of its closing parenthesis. -/
theorem Formula.exists_parts {arguments : List Token} {nth : Nth}
    (formula : Formula arguments nth) {token : Token} (member : token ∈ arguments)
    (part : Selector.Parser.isFormulaPart token.kind = true) :
    ∃ first second, arguments = first ++ token :: second ∧
      (∀ other ∈ first, Selector.Parser.isFormulaPart other.kind = true) ∧
      '/' ∉ token.text := by
  cases formula with
  | @parts tokens close _ parts closes parsed =>
      have among : token ∈ tokens := by
        rcases List.mem_append.mp member with among | isLast
        · exact among
        · rw [List.mem_singleton.mp isLast, closes] at part
          cases part
      obtain ⟨first, second, rfl⟩ := List.append_of_mem among
      refine ⟨first, second ++ [close], by simp,
        fun other inside => parts other (List.mem_append_left _ inside), fun slash => ?_⟩
      rw [Nth.parse_of_slash (List.mem_flatMap.mpr ⟨token, by simp, slash⟩)] at parsed
      cases parsed

/-- The parts of a formula are the tokens up to the first one that is none. -/
theorem Formula.mem_of_append {arguments more parts behind : List Token} {nth : Nth}
    {token : Token} (formula : Formula arguments nth)
    (split : parts ++ token :: behind = arguments ++ more)
    (isPart : ∀ other ∈ parts, Selector.Parser.isFormulaPart other.kind = true)
    (part : Selector.Parser.isFormulaPart token.kind = true) : token ∈ arguments := by
  cases formula with
  | @parts tokens close _ all closes _ =>
      have ends : Selector.Parser.isFormulaPart close.kind ≠ true := by
        rw [closes]
        decide
      have same := congrArg
        (List.takeWhile fun token => Selector.Parser.isFormulaPart token.kind) split
      rw [List.takeWhile_append_of_pos isPart, List.takeWhile_cons, if_pos part,
        List.append_assoc, List.singleton_append, List.takeWhile_append_of_pos all,
        List.takeWhile_cons, if_neg ends, List.append_nil] at same
      refine List.mem_append_left _ ?_
      rw [← same]
      exact List.mem_append_right _ List.mem_cons_self

theorem Formula.map {change : Token → Token} {arguments : List Token} {nth : Nth}
    (formula : Formula arguments nth)
    (kinds : ∀ token ∈ arguments, (change token).kind = token.kind)
    (texts : ∀ token ∈ arguments, Selector.Parser.isFormulaPart token.kind = true →
      (change token).text = token.text) :
    Formula (arguments.map change) nth := by
  cases formula with
  | @parts tokens close _ parts closes parsed =>
      simp only [List.forall_mem_append, List.forall_mem_singleton] at kinds texts
      rw [List.map_append, List.map_singleton]
      refine .parts ?_ (kinds.2.trans closes) ?_
      · intro token member
        obtain ⟨original, among, rfl⟩ := List.mem_map.mp member
        rw [kinds.1 original among]
        exact parts original among
      · have same : (tokens.map change).flatMap Token.text = tokens.flatMap Token.text := by
          rw [List.flatMap_map]
          exact List.flatMap_congr fun token among =>
            texts.1 token among (parts token among)
        rw [same, parsed]

variable {text : String} {before after : List Token} {next : Token} {body : List Char}

/-- A comment outside of formulas changes nothing that a derivation looks at. -/
theorem respells_respell (scanned : scan text = before ++ next :: after)
    (outside : ¬ (InFormula before ∧
      Selector.Parser.isFormulaPart next.kind = true)) :
    Respells (respell (comment body) next.start) (scan text) where
  kinds _ _ := respell_kind
  ident token _ name _ noDigit := by
    by_cases same : token.start = next.start
    · exact startsWithDigit_comment (Nat.zero_le 1) _ (respell_text_of_eq same)
    · rwa [startsWithDigit, respell_text_of_ne same]
  hash token _ name _ noDigit := by
    by_cases same : token.start = next.start
    · exact startsWithDigit_comment (Nat.le_refl 1) _ (respell_text_of_eq same)
    · rwa [startsWithDigit, respell_text_of_ne same]
  formula call arguments name counting nth inside function counts formula := by
    refine formula.map (fun _ _ => respell_kind) fun token member part =>
      respell_text_of_ne fun same => outside ?_
    obtain ⟨front, back, split⟩ := inside
    obtain ⟨first, second, rfl, parts, -⟩ := formula.exists_parts member part
    have whole : scan text =
        (front ++ call :: first) ++ token :: (second ++ back) := by
      rw [← split]
      simp
    obtain rfl := eq_of_start_eq scanned (by simp [whole]) same
    exact ⟨⟨front, call, first, name, (eq_of_split scanned whole).symm, function,
      by simp [counts], parts⟩, part⟩

private theorem respells_unspell (scanned : scan text = before ++ next :: after)
    (noNumber : next.isNumber = false) :
    Respells (unspell (comment body) next.start)
      ((scan text).map (respell (comment body) next.start)) where
  kinds token member := by
    obtain ⟨original, -, rfl⟩ := List.mem_map.mp member
    simp
  ident token member name kind noDigit := by
    obtain ⟨original, among, rfl⟩ := List.mem_map.mp member
    rw [unspell_respell]
    by_cases same : original.start = next.start
    · obtain rfl := eq_of_start_eq scanned among same
      rw [respell_kind] at kind
      rwa [isNumber, kind] at noNumber
    · rwa [startsWithDigit, respell_text_of_ne same] at noDigit
  hash token member name kind noDigit := by
    obtain ⟨original, among, rfl⟩ := List.mem_map.mp member
    rw [unspell_respell]
    by_cases same : original.start = next.start
    · obtain rfl := eq_of_start_eq scanned among same
      rw [respell_kind] at kind
      rwa [isNumber, kind] at noNumber
    · rwa [startsWithDigit, respell_text_of_ne same] at noDigit
  formula call arguments name counting nth inside function counts formula := by
    have original (token : Token) (member : token ∈ arguments) :
        ∃ first ∈ scan text, respell (comment body) next.start first = token :=
      List.mem_map.mp (inside.mem (List.mem_cons_of_mem _ member))
    refine formula.map (fun token member => ?_) fun token member part => ?_
    · obtain ⟨first, -, rfl⟩ := original token member
      simp
    · obtain ⟨-, -, -, -, noSlash⟩ := formula.exists_parts member part
      obtain ⟨first, -, rfl⟩ := original token member
      rw [unspell_respell]
      refine (respell_text_of_ne fun same => noSlash ?_).symm
      rw [respell_text_of_eq same]
      exact List.mem_append_left _ List.mem_cons_self

/-! ## Derived segments -/

/-- Every positional pseudo-class in the segment has a formula. -/
def HasFormulas (segment : List Token) : Prop :=
  ∀ front call rest name, segment = front ++ call :: rest →
    call.kind = .function name → (Counting.ofName? (Text.foldCase name)).isSome →
    ∃ arguments more nth, rest = arguments ++ more ∧ Formula arguments nth

theorem HasFormulas.of_no_function {segment : List Token}
    (none : ∀ token ∈ segment, ∀ name, token.kind ≠ .function name) :
    HasFormulas segment := by
  rintro front call rest name rfl function _
  exact absurd function (none call (by simp) name)

theorem HasFormulas.append {first second : List Token} (head : HasFormulas first)
    (tail : HasFormulas second) : HasFormulas (first ++ second) := by
  intro front call rest name split function counts
  rcases List.append_eq_append_iff.mp split with
    ⟨inner, rfl, inside⟩ | ⟨inner, rfl, behind⟩
  · exact tail inner call rest name inside function counts
  · cases inner with
    | nil => exact tail [] call rest name behind.symm function counts
    | cons token inner =>
        obtain ⟨rfl, rfl⟩ := List.cons.inj behind
        obtain ⟨arguments, more, nth, rfl, formula⟩ :=
          head front call inner name rfl function counts
        exact ⟨arguments, more ++ second, nth, List.append_assoc _ _ _, formula⟩

/-- A function in front of a segment. -/
theorem HasFormulas.cons {token : Token} {segment : List Token}
    (tail : HasFormulas segment)
    (head : ∀ name, token.kind = .function name →
      (Counting.ofName? (Text.foldCase name)).isSome →
      ∃ arguments more nth, segment = arguments ++ more ∧ Formula arguments nth) :
    HasFormulas (token :: segment) := by
  intro front call rest name split function counts
  cases front with
  | nil =>
      obtain ⟨rfl, rfl⟩ := List.cons.inj split
      exact head name function counts
  | cons first front =>
      exact tail front call rest name (List.cons.inj split).2 function counts

private theorem composes_hasFormulas : Composes HasFormulas where
  flat flat := by
    refine .of_no_function fun token member name kind => ?_
    have isFlat := (flat token member).1
    rw [Token.isFlat, kind] at isFlat
    cases isFlat
  colon kind := .of_no_function (by simp [kind])
  append := .append
  formula function counts formula := by
    refine .cons (.of_no_function fun token member name kind => ?_) fun _ _ _ =>
      ⟨_, [], _, (List.append_nil _).symm, formula⟩
    cases formula with
    | parts parts closes _ =>
        rcases List.mem_append.mp member with member | member
        · have part := parts token member
          rw [kind] at part
          cases part
        · rw [List.mem_singleton.mp member, closes] at kind
          cases kind
  function function selects list closes := by
    refine .cons (list.append (.of_no_function ?_)) fun name kind counts => ?_
    · intro token member name kind
      rw [List.mem_singleton.mp member, closes] at kind
      cases kind
    · obtain rfl : _ = name := TokenKind.function.inj (function.symm.trans kind)
      obtain ⟨counting, known⟩ := Option.isSome_iff_exists.mp counts
      rw [Selector.Parser.selectorFunction_of_counting known] at selects
      cases selects

/-! ## Readings -/

section

variable {σ : Type} {aliases : AliasSource σ} {maxNesting : Nat} {known later : σ}
  {remarks : List Remark} {selector : Selector}

theorem Follows.refl (aliases : AliasSource σ) :
    Follows aliases aliases (fun _ => True) Eq := by
  intro name known selector later expanded _
  refine ⟨trivial, fun state same => ⟨later, rfl, ?_⟩⟩
  rw [← same]
  exact expanded

/-- Other tokens from which the same is derived are read alike. -/
theorem yields_readAll_respelled {change : Token → Token} {tokens : List Token}
    (respells : Respells change tokens) (others : List Remark)
    (read : Yields (Selector.Parser.readAll aliases maxNesting tokens) remarks known
      selector later) :
    Yields (Selector.Parser.readAll aliases maxNesting (tokens.map change)) others known
      selector later := by
  obtain ⟨-, leads⟩ := yields_readAll_transfer respells (.refl aliases)
    (Nat.le_refl maxNesting) others read trivial
  obtain ⟨_, rfl, same⟩ := leads known rfl
  exact same

theorem finished_before (scanned : scan text = before ++ next :: after)
    (read : Yields (Selector.read aliases maxNesting text) remarks known selector
      later) :
    ∀ last ∈ before.getLast?, ¬ Unfinished last.kind := by
  intro last member
  apply Selector.finished_of_read read
  rw [scanned]
  exact List.mem_append_left _ (List.mem_of_getLast? member)

theorem read_withComment (scanned : scan text = before ++ next :: after)
    (closed : ¬ ['*', '/'] <:+: body)
    (outside : ¬ (InFormula before ∧ Selector.Parser.isFormulaPart next.kind = true))
    (read : Yields (Selector.read aliases maxNesting text) remarks known selector
      later) :
    Yields (Selector.read aliases maxNesting (withComment text body next.start)) remarks
      known selector later := by
  rw [Selector.read,
    scan_withComment scanned (finished_before scanned read) closed]
  exact yields_readAll_respelled (respells_respell scanned outside) remarks read

theorem read_of_withComment (scanned : scan text = before ++ next :: after)
    (closed : ¬ ['*', '/'] <:+: body)
    (finished : ∀ last ∈ before.getLast?, ¬ Unfinished last.kind)
    (noNumber : next.isNumber = false)
    (read : Yields (Selector.read aliases maxNesting
      (withComment text body next.start)) remarks known selector later) :
    Yields (Selector.read aliases maxNesting text) remarks known selector later := by
  rw [Selector.read, scan_withComment scanned finished closed] at read
  have back :=
    yields_readAll_respelled (respells_unspell scanned noNumber) remarks read
  rw [List.map_map] at back
  have same : unspell (comment body) next.start ∘ respell (comment body) next.start =
      id := by
    funext token
    exact unspell_respell _ _ token
  rwa [same, List.map_id] at back

/-- What stands in front of another token than the last one. -/
theorem exists_eq_append_cons {left right segment : List Token} {token stop : Token}
    (split : left ++ token :: right = segment ++ [stop]) (goesOn : token ≠ stop) :
    ∃ behind, segment = left ++ token :: behind := by
  obtain rfl | ⟨inner, last, rfl⟩ := List.eq_nil_or_concat right
  · exact absurd (List.append_inj' split rfl).2 (by simpa using goesOn)
  · rw [List.concat_eq_append, ← List.cons_append, ← List.append_assoc] at split
    exact ⟨inner, (List.append_inj' split rfl).1.symm⟩

/-- A comment inside of a formula takes the text from it. -/
theorem not_read_withComment (scanned : scan text = before ++ next :: after)
    (closed : ¬ ['*', '/'] <:+: body)
    (finished : ∀ last ∈ before.getLast?, ¬ Unfinished last.kind)
    (inside : InFormula before)
    (part : Selector.Parser.isFormulaPart next.kind = true) :
    ¬ Yields (Selector.read aliases maxNesting (withComment text body next.start))
      remarks known selector later := by
  intro read
  obtain ⟨segment, stop, split, stops, derived⟩ := Selector.exists_derivation read
  obtain ⟨front, call, parts, name, rfl, function, counts, isPart⟩ := inside
  let change := respell (comment body) next.start
  have scannedThere : (front.map change ++ change call :: parts.map change) ++
      change next :: after.map change = segment ++ [stop] := by
    rw [← split, scan_withComment scanned finished closed, scanned]
    simp [change]
  have goesOn : change next ≠ stop := by
    rintro same
    rw [← same, respell_kind] at stops
    rw [stops] at part
    cases part
  obtain ⟨behind, rfl⟩ := exists_eq_append_cons scannedThere goesOn
  obtain ⟨arguments, more, nth, rest, formula⟩ :=
    Whole.property composes_hasFormulas derived (front.map change) (change call)
      (parts.map change ++ change next :: behind) name (by simp)
      (respell_kind.trans function) counts
  have isPartThere : ∀ token ∈ parts.map change,
      Selector.Parser.isFormulaPart token.kind = true := by
    intro token member
    obtain ⟨original, among, rfl⟩ := List.mem_map.mp member
    rw [respell_kind]
    exact isPart original among
  have partThere : Selector.Parser.isFormulaPart (change next).kind = true := by
    rwa [respell_kind]
  obtain ⟨-, -, -, -, noSlash⟩ := formula.exists_parts
    (formula.mem_of_append rest isPartThere partThere) partThere
  rw [respell_text_of_eq rfl] at noSlash
  exact noSlash (List.mem_append_left _ List.mem_cons_self)

end

end Grammar

namespace Selector

open Token

/-- A comment that is inserted in front of a token of a text leaves the selector that
the text stands for as it is, if it is not in the middle of a formula; then, if it is
not in front of a number and what is in front of it is finished, it makes no selector
of a text that stands for none, either.  In the middle of a formula it always leaves a
text that stands for no selector.  This holds for all tables of aliases and all limits. -/
theorem parseWith_withComment (aliases : Except ParseError AliasTable)
    (limits : CompileLimits) {text : String} {before after : List Token} {next : Token}
    {body : List Char} (scanned : Token.scan text = before ++ next :: after)
    (closed : ¬ ['*', '/'] <:+: body) :
    (¬ (InFormula before ∧ Parser.isFormulaPart next.kind = true) →
        ∀ selector, (Selector.parseWith aliases limits text).1 = .ok selector →
          (Selector.parseWith aliases limits (withComment text body next.start)).1 =
            .ok selector) ∧
      ((∀ last ∈ before.getLast?, ¬ Unfinished last.kind) → next.isNumber = false →
        ∀ selector,
          (Selector.parseWith aliases limits (withComment text body next.start)).1 =
            .ok selector →
          (Selector.parseWith aliases limits text).1 = .ok selector) ∧
      ((∀ last ∈ before.getLast?, ¬ Unfinished last.kind) → InFormula before →
        Parser.isFormulaPart next.kind = true → ∀ selector,
          (Selector.parseWith aliases limits (withComment text body next.start)).1 ≠
            .ok selector) := by
  cases aliases with
  | error failure =>
      have never (text : String) (selector : Selector) :
          (Selector.parseWith (.error failure) limits text).1 ≠ .ok selector := by
        simp [Selector.parseWith]
      exact ⟨fun _ selector parsed => absurd parsed (never _ _),
        fun _ _ selector parsed => absurd parsed (never _ _),
        fun _ _ _ selector => never _ _⟩
  | ok table =>
      refine ⟨fun outside selector parsed => ?_, fun finished noNumber selector parsed => ?_,
        fun finished inside part selector parsed => ?_⟩
      · exact parseWith_eq_ok_iff.mpr
          (read_withComment scanned closed outside (parseWith_eq_ok_iff.mp parsed))
      · exact parseWith_eq_ok_iff.mpr (read_of_withComment scanned closed finished noNumber
          (parseWith_eq_ok_iff.mp parsed))
      · exact not_read_withComment scanned closed finished inside part
          (parseWith_eq_ok_iff.mp parsed)

/-- The tokens of `:nth-child(2n+1)`. -/
def oddTokens : List Token :=
  [⟨.colon, 0, [':']⟩, ⟨.function "nth-child", 1, "nth-child(".toList⟩,
    ⟨.ident "2n", 11, ['2', 'n']⟩, ⟨.delim '+', 13, ['+']⟩, ⟨.ident "1", 14, ['1']⟩,
    ⟨.rightParen, 15, [')']⟩, ⟨.endOfInput, 16, []⟩]

/-- `:nth-child(2n+1)`. -/
def oddSelector : Selector :=
  [⟨[.nth .children ⟨2, 1⟩], [], none⟩]

/-- Behind the formula a comment may stand, and inside of it none. -/
theorem parseWith_withComment_odd :
    Token.scan ":nth-child(2n+1)" = oddTokens ∧
      (Selector.parseWith (.ok ⟨[]⟩) {} ":nth-child(2n+1)").1 = .ok oddSelector ∧
      (Selector.parseWith (.ok ⟨[]⟩) {}
        (withComment ":nth-child(2n+1)" ['o', 'd', 'd'] 15)).1 = .ok oddSelector ∧
      (Selector.parseWith (.ok ⟨[]⟩) {}
        (withComment ":nth-child(2n+1)" ['o', 'd', 'd'] 13)).1 ≠ .ok oddSelector := by
  have scanned : Token.scan ":nth-child(2n+1)" = oddTokens := by decide +kernel
  have parsed : (Selector.parseWith (.ok ⟨[]⟩) {} ":nth-child(2n+1)").1 =
      .ok oddSelector := by
    decide +kernel
  have closed : ¬ ['*', '/'] <:+: ['o', 'd', 'd'] := by decide
  have behind : Token.scan ":nth-child(2n+1)" =
      oddTokens.take 5 ++ ⟨.rightParen, 15, [')']⟩ :: oddTokens.drop 6 := scanned
  have inside : Token.scan ":nth-child(2n+1)" =
      oddTokens.take 3 ++ ⟨.delim '+', 13, ['+']⟩ :: oddTokens.drop 4 := scanned
  have inFormula : InFormula (oddTokens.take 3) :=
    ⟨[⟨.colon, 0, [':']⟩], _, [⟨.ident "2n", 11, ['2', 'n']⟩], "nth-child", rfl, rfl,
      by decide, by decide⟩
  have kept := (parseWith_withComment (.ok ⟨[]⟩) {} behind closed).1
    (by simp [Parser.isFormulaPart]) oddSelector parsed
  have lost := (parseWith_withComment (.ok ⟨[]⟩) {} inside closed).2.2
    (by simp [oddTokens, Unfinished]) inFormula rfl oddSelector
  exact ⟨scanned, parsed, kept, lost⟩

/-- With a comment in front of it, a number is a name; a formula with a comment inside
is none. -/
theorem not_parse_withComment_iff :
    Token.scan "1a" = [⟨.ident "1a", 0, ['1', 'a']⟩, ⟨.endOfInput, 2, []⟩] ∧
      (Selector.parse {} "1a").1 = .error (.unexpectedToken (.ident "1a") 0) ∧
      (Selector.parse {} (withComment "1a" [] 0)).1 = .ok [⟨[.type "1a"], [], none⟩] ∧
      Token.scan ":nth-child(2n+1)" = oddTokens ∧
      (Selector.parse {} ":nth-child(2n+1)").1 = .ok oddSelector ∧
      (Selector.parse {} (withComment ":nth-child(2n+1)" [] 13)).1 =
        .error (.invalidNth "2n/**/+1") := by
  decide +kernel

end Selector

end TreeSelectors
