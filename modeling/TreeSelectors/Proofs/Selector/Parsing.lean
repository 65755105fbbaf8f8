import TreeSelectors.Proofs.Selector.Dependence
import TreeSelectors.Proofs.Token.Following

/-!
# Reading follows the grammar

Arguments are read as the grammar has them, by induction on the levels of
nesting that are left.  So a text is read as a selector exactly if its tokens
derive that selector.
-/

namespace TreeSelectors

namespace Grammar

variable {σ : Type} {setting : Setting σ} {relative : Bool} {known later : σ}
  {blank segment : List Token} {selector : Selector}

@[simp] theorem blank_append_iff {first second : List Token} :
    Blank (first ++ second) ↔ Blank first ∧ Blank second :=
  List.forall_mem_append

/-- White space in front of a list belongs to its first chain. -/
theorem ListOf.blank_append (isBlank : Blank blank)
    (derived : ListOf setting relative known segment selector later) :
    ListOf setting relative known (blank ++ segment) selector later := by
  cases derived with
  | single first chain last =>
      rw [← List.append_assoc, ← List.append_assoc]
      exact .single (blank_append_iff.mpr ⟨isBlank, first⟩) chain last
  | cons first chain last kind listed =>
      rw [← List.append_assoc, ← List.append_assoc, ← List.append_assoc]
      exact .cons (blank_append_iff.mpr ⟨isBlank, first⟩) chain last kind listed

theorem ListOf.exists_blank_append
    (derived : ListOf setting relative known segment selector later) :
    ∃ blank token rest, segment = blank ++ token :: rest ∧ Blank blank ∧
      token.kind ≠ .whitespace ∧
      ListOf setting relative known (token :: rest) selector later := by
  cases derived with
  | @single _ _ first _ last _ firstBlank chain lastBlank =>
      obtain ⟨token, others, rfl, notBlank⟩ := chain.exists_cons
      exact ⟨first, token, others ++ last, by simp, firstBlank, notBlank,
        .single blank_nil chain lastBlank⟩
  | @cons _ _ _ first _ last rest comma _ _ firstBlank chain lastBlank kind listed =>
      obtain ⟨token, others, rfl, notBlank⟩ := chain.exists_cons
      exact ⟨first, token, others ++ last ++ comma :: rest, by simp, firstBlank,
        notBlank, .cons blank_nil chain lastBlank kind listed⟩

end Grammar

namespace Selector.Parser

open Grammar Reading

variable {σ : Type} {aliases : AliasSource σ} {limit levels : Nat}
  {remarks : List Remark} {known later : σ} {tokens : List Token}

/-- An argument is a list and the closing parenthesis behind it, and has one level
less for the arguments in it. -/
theorem readArgument_succ {opening : Nat} {relative : Bool} :
    readArgument aliases limit (levels + 1) opening relative tokens = (do
      let (selector, ⟨rest, fewer⟩) ← readChains
        ⟨aliases, some opening, readArgument aliases limit levels⟩ relative tokens
      match accept? .rightParen rest with
      | some ⟨after, closed⟩ =>
          return (selector, ⟨after, Nat.lt_trans closed fewer⟩)
      | none => throw (ParseError.atToken (some opening) rest)) :=
  rfl

/-- At every number of levels, arguments are read as the grammar has them. -/
theorem readArgument_reads (aliases : AliasSource σ) (limit levels : Nat)
    (opened : Option Nat) :
    Context.Reads ⟨aliases, opened, readArgument aliases limit levels⟩
      (.upTo aliases levels) := by
  induction levels generalizing opened with
  | zero =>
      refine ⟨rfl, fun impossible => impossible.elim, ?_⟩
      intro opening relative tokens rest fewer remarks known later selector
      apply iff_of_false
      · exact not_yields_throw
      · intro derivation
        obtain ⟨segment, -, impossible⟩ := derivation
        exact impossible
  | succ levels induction =>
      refine ⟨rfl, ?_, ?_⟩
      · intro relative known later _ selector argument
        obtain ⟨list, close, rfl, -⟩ := argument
        simp
      · intro opening relative tokens rest fewer remarks known later selector
        have reads := induction (some opening)
        dsimp only
        rw [readArgument_succ]
        constructor
        · intro answered
          obtain ⟨⟨found, after, shorter⟩, between, notes, listed, result⟩ :=
            answered.exists_first
          obtain ⟨list, rfl, derived, -⟩ := readChains_sound reads listed
          dsimp only at result
          split at result
          · rename_i closed
            obtain ⟨⟨rfl, rfl⟩, rfl⟩ := yields_pair_iff.mp result
            obtain ⟨close, rfl, closes⟩ := accept?_eq_some_iff.mp closed
            exact ⟨list ++ [close], by simp, list, close, rfl, closes, derived⟩
          · exact absurd result not_yields_throw
        · intro derivation
          obtain ⟨_, rfl, list, close, rfl, closes, derived⟩ := derivation
          have whole : list ++ [close] ++ rest = list ++ close :: rest := by simp
          have ends : EndsList (close :: rest) :=
            ⟨endsChain_iff.mpr (Or.inr (Or.inl closes)), by simp [Token.peek, closes]⟩
          have shorter : (close :: rest).length < (list ++ [close] ++ rest).length := by
            rw [whole]
            exact length_lt_of_ne_nil derived.ne_nil
          have closed : accept? .rightParen (close :: rest) =
              some ⟨rest, Nat.lt_succ_self _⟩ :=
            accept?_eq_some_iff.mpr ⟨close, rfl, closes⟩
          refine (readChains_complete reads derived ends whole shorter).bind fun _ => ?_
          dsimp only
          rw [closed]
          exact yields_pure_iff.mpr ⟨rfl, rfl⟩

theorem readAll_yields_iff {selector : Selector} :
    Yields (readAll aliases levels tokens) remarks known selector later ↔
      ∃ segment rest, tokens = segment ++ rest ∧ Token.peek rest = .endOfInput ∧
        Whole aliases levels known segment selector later := by
  have reads := readArgument_reads aliases levels levels none
  constructor
  · intro answered
    simp only [readAll] at answered
    split at answered
    · exact absurd answered not_yields_throw
    · obtain ⟨⟨found, rest, shorter⟩, between, notes, listed, result⟩ :=
        answered.exists_first
      obtain ⟨segment, split, derived, -⟩ := readChains_sound reads listed
      obtain ⟨blank, isBlank, whole, -⟩ := skipBlank_val_iff.mp split
      split at result
      · rename_i ended
        obtain ⟨rfl, rfl⟩ := yields_pure_iff.mp result
        exact ⟨blank ++ segment, rest, by simp [whole], ended,
          derived.blank_append isBlank⟩
      · exact absurd result not_yields_throw
  · intro derivation
    obtain ⟨_, rest, rfl, ended, derived⟩ := derivation
    obtain ⟨blank, token, others, rfl, isBlank, notBlank, derived⟩ :=
      derived.exists_blank_append
    have skipped : (skipBlank (blank ++ token :: others ++ rest)).val =
        token :: others ++ rest :=
      skipBlank_val_iff.mpr ⟨blank, isBlank, by simp, notBlank⟩
    have starts : Token.peek (token :: others ++ rest) ≠ .endOfInput :=
      Whole.goesOn derived token List.mem_cons_self
    have ends : EndsList rest :=
      ⟨endsChain_iff.mpr (Or.inr (Or.inr ended)), by simp [ended]⟩
    have shorter : rest.length < (token :: others ++ rest).length :=
      length_lt_of_ne_nil (List.cons_ne_nil _ _)
    simp only [readAll]
    rw [skipped, if_neg starts]
    refine (readChains_complete reads derived ends rfl shorter).bind fun _ => ?_
    rw [if_pos ended]
    exact yields_pure_iff.mpr ⟨rfl, rfl⟩

end Selector.Parser

namespace Grammar

/-- The segment up to the end of a text is unique. -/
theorem eq_of_goesOn {body segment rest : List Token} {stop : Token}
    (split : body ++ [stop] = segment ++ rest) (stops : stop.kind = .endOfInput)
    (bodyGoesOn : ∀ token ∈ body, token.kind ≠ .endOfInput)
    (ended : Token.peek rest = .endOfInput)
    (goesOn : ∀ token ∈ segment, token.kind ≠ .endOfInput) :
    body = segment ∧ rest = [stop] := by
  cases rest with
  | nil =>
      have member : stop ∈ segment := by
        rw [List.append_nil] at split
        simp [← split]
      exact absurd stops (goesOn stop member)
  | cons last others =>
      obtain rfl | ⟨inner, final, rfl⟩ := List.eq_nil_or_concat others
      · obtain ⟨same, last⟩ := List.append_inj' split rfl
        exact ⟨same, last.symm⟩
      · have member : last ∈ body := by
          rw [List.concat_eq_append, ← List.cons_append, ← List.append_assoc] at split
          have same := (List.append_inj' split rfl).1
          simp [same]
        exact absurd ended (bodyGoesOn last member)

end Grammar

open Grammar Reading

theorem Selector.exists_derivation {σ : Type} {aliases : AliasSource σ}
    {maxNesting : Nat} {text : String} {remarks : List Remark} {known later : σ}
    {selector : Selector}
    (read : Yields (Selector.read aliases maxNesting text) remarks known selector later) :
    ∃ segment stop, Token.scan text = segment ++ [stop] ∧ stop.kind = .endOfInput ∧
      Whole aliases maxNesting known segment selector later := by
  obtain ⟨segment, rest, split, ended, derived⟩ := Parser.readAll_yields_iff.mp read
  obtain ⟨body, stop, scanned, stops, goesOn⟩ :=
    Token.scanFrom_eq_append 0 text.toList
  obtain ⟨rfl, rfl⟩ := eq_of_goesOn (scanned.symm.trans split) stops goesOn ended
    (Whole.goesOn derived)
  exact ⟨body, stop, split, stops, derived⟩

theorem Selector.yields_of_derivation {σ : Type} {aliases : AliasSource σ}
    {maxNesting : Nat} {text : String} (remarks : List Remark) {known later : σ}
    {selector : Selector} {segment : List Token} {stop : Token}
    (scanned : Token.scan text = segment ++ [stop]) (stops : stop.kind = .endOfInput)
    (derived : Whole aliases maxNesting known segment selector later) :
    Yields (Selector.read aliases maxNesting text) remarks known selector later :=
  Parser.readAll_yields_iff.mpr ⟨segment, [stop], scanned, stops, derived⟩

/-- A text is read as a selector exactly if its tokens up to the end derive the
selector.  This holds of any alias source and any limit on nesting. -/
theorem Selector.read_iff_derivation {σ : Type} (aliases : AliasSource σ)
    (maxNesting : Nat) (text : String) (remarks : List Remark) (known later : σ)
    (selector : Selector) :
    Yields (Selector.read aliases maxNesting text) remarks known selector later ↔
      ∃ segment stop, Token.scan text = segment ++ [stop] ∧
        stop.kind = .endOfInput ∧
        Whole aliases maxNesting known segment selector later := by
  constructor
  · exact Selector.exists_derivation
  · intro derivation
    obtain ⟨segment, stop, split, stops, derived⟩ := derivation
    exact Parser.readAll_yields_iff.mpr ⟨segment, [stop], split, stops, derived⟩

/-! ## Unfinished tokens -/

namespace Grammar

open Token

/-- Nothing unfinished stands in a derived segment. -/
theorem composes_finished :
    Composes fun segment => ∀ token ∈ segment, ¬ Unfinished token.kind where
  flat flat token member unfinished := by
    have isFlat := (flat token member).1
    rcases unfinished with kind | kind
    · rw [Token.isFlat, kind] at isFlat
      cases isFlat
    · rw [Token.isFlat, kind] at isFlat
      cases isFlat
  colon kind := by
    simp [Unfinished, kind]
  append first second := List.forall_mem_append.mpr ⟨first, second⟩
  formula function _ formula := by
    cases formula with
    | parts parts closes _ =>
        refine List.forall_mem_cons.mpr ⟨by simp [Unfinished, function],
          List.forall_mem_append.mpr ⟨fun token member unfinished => ?_, by
            simp [Unfinished, closes]⟩⟩
        have part := parts token member
        rcases unfinished with kind | kind
        · rw [kind] at part
          cases part
        · rw [kind] at part
          cases part
  function function _ list closes :=
    List.forall_mem_cons.mpr ⟨by simp [Unfinished, function],
      List.forall_mem_append.mpr ⟨list, by simp [Unfinished, closes]⟩⟩

end Grammar

/-- No token of a text that is read is unfinished. -/
theorem Selector.finished_of_read {σ : Type} {aliases : AliasSource σ}
    {maxNesting : Nat} {text : String} {remarks : List Remark} {known later : σ}
    {selector : Selector}
    (read : Yields (Selector.read aliases maxNesting text) remarks known selector later) :
    ∀ token ∈ Token.scan text, ¬ Token.Unfinished token.kind := by
  obtain ⟨segment, stop, scanned, stops, derived⟩ := Selector.exists_derivation read
  rw [scanned]
  refine List.forall_mem_append.mpr ⟨Whole.property composes_finished derived, ?_⟩
  simp [Token.Unfinished, stops]

end TreeSelectors
