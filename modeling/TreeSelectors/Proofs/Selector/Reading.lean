import TreeSelectors.Proofs.Selector.Grammar

/-!
# What a reading yields

A reading yields a value if it succeeds with it, whatever its remarks are.  The
small readers, which only look at the next tokens, are characterised here.
-/

namespace TreeSelectors

namespace Reading

variable {σ α β : Type} {remarks : List Remark} {known later : σ}

/-- The reading succeeds with a value, and leads from what is known about
aliases to what is known later. -/
def Yields (reading : Reading σ α) (remarks : List Remark) (known : σ)
    (value : α) (later : σ) : Prop :=
  ∃ others, reading ⟨known, remarks⟩ = .ok value ⟨later, others⟩

theorem Yields.unique {reading : Reading σ α} {value result : α} {learnt : σ}
    (first : Yields reading remarks known value learnt)
    (second : Yields reading remarks known result later) :
    value = result ∧ learnt = later := by
  obtain ⟨others, answered⟩ := first
  obtain ⟨notes, again⟩ := second
  cases answered.symm.trans again
  exact ⟨rfl, rfl⟩

@[simp] theorem yields_pure_iff {value result : α} :
    Yields (pure value : Reading σ α) remarks known result later ↔
      value = result ∧ known = later := by
  simp [Yields, pure, EStateM.pure]

theorem yields_pair_iff {left : List Token → Prop} {value result : α}
    {rest others : { tokens // left tokens }} :
    Yields (pure (value, rest) : Reading σ _) remarks known (result, others)
        later ↔
      (value = result ∧ rest.val = others.val) ∧ known = later := by
  rw [yields_pure_iff, Prod.mk.injEq, Subtype.ext_iff]

theorem yields_some_iff {left : List Token → Prop} {value result : α}
    {rest others : { tokens // left tokens }} :
    Yields (pure (some (value, rest)) : Reading σ _) remarks known
        (some (result, others)) later ↔
      (value = result ∧ rest.val = others.val) ∧ known = later := by
  rw [yields_pure_iff, Option.some.injEq, Prod.mk.injEq, Subtype.ext_iff]

@[simp] theorem not_yields_throw {failure : ParseError} {result : α} :
    ¬ Yields (throw failure : Reading σ α) remarks known result later := by
  intro yields
  obtain ⟨others, answered⟩ := yields
  cases answered

theorem Yields.exists_first {reading : Reading σ α} {next : α → Reading σ β}
    {result : β}
    (answered : Yields (reading >>= next) remarks known result later) :
    ∃ value between others, Yields reading remarks known value between ∧
      Yields (next value) others between result later := by
  obtain ⟨others, whole⟩ := answered
  cases first : reading ⟨known, remarks⟩ with
  | error failure progress =>
      simp only [bind, EStateM.bind, first] at whole
      cases whole
  | ok value progress =>
      simp only [bind, EStateM.bind, first] at whole
      exact ⟨value, progress.aliases, progress.remarks, ⟨_, first⟩, others, whole⟩

theorem Yields.bind {reading : Reading σ α} {next : α → Reading σ β}
    {value : α} {between : σ} {result : β}
    (first : Yields reading remarks known value between)
    (continues : ∀ others, Yields (next value) others between result later) :
    Yields (reading >>= next) remarks known result later := by
  obtain ⟨others, answered⟩ := first
  obtain ⟨final, followed⟩ := continues others
  refine ⟨final, ?_⟩
  simp only [Bind.bind, EStateM.bind, answered]
  exact followed

@[simp] theorem yields_remark_iff {note : Remark} :
    Yields (remark note : Reading σ Unit) remarks known () later ↔
      known = later := by
  constructor
  · intro yields
    obtain ⟨others, answered⟩ := yields
    cases answered
    rfl
  · rintro rfl
    exact ⟨_, rfl⟩

@[simp] theorem yields_expand_iff {source : AliasSource σ} {name : String}
    {result : Option Selector} :
    Yields (expand source name) remarks known result later ↔
      (source.expand name).run known = .ok (result, later) := by
  simp only [Yields, expand]
  cases (source.expand name).run known with
  | error failure => simp
  | ok answer =>
      obtain ⟨selector, learnt⟩ := answer
      simp [Prod.ext_iff]

@[simp] theorem yields_ofExcept_iff {outcome : Except ParseError α} {result : α} :
    Yields (ofExcept outcome : Reading σ α) remarks known result later ↔
      outcome = .ok result ∧ known = later := by
  cases outcome with
  | error failure => simp [ofExcept]
  | ok value =>
      rw [ofExcept, yields_pure_iff, Except.ok.injEq]

theorem Yields.of_ofExcept_bind {outcome : Except ParseError α}
    {next : α → Reading σ β} {result : β}
    (answered : Yields (ofExcept outcome >>= next) remarks known result later) :
    ∃ value others, outcome = .ok value ∧
      Yields (next value) others known result later := by
  obtain ⟨value, between, others, first, rest⟩ := answered.exists_first
  obtain ⟨found, rfl⟩ := yields_ofExcept_iff.mp first
  exact ⟨value, others, found, rest⟩

theorem yields_ofExcept_bind {outcome : Except ParseError α} {value : α}
    {next : α → Reading σ β} {result : β} (found : outcome = .ok value)
    (continues : ∀ others, Yields (next value) others known result later) :
    Yields (ofExcept outcome >>= next) remarks known result later :=
  (yields_ofExcept_iff.mpr ⟨found, rfl⟩).bind continues

@[simp] theorem yields_remark_bind_iff {note : Remark} {value result : α} :
    Yields (remark note >>= fun _ => (pure value : Reading σ α)) remarks known
        result later ↔
      value = result ∧ known = later := by
  constructor
  · intro answered
    obtain ⟨_, between, others, noted, rest⟩ := answered.exists_first
    obtain rfl := yields_remark_iff.mp noted
    exact yields_pure_iff.mp rest
  · intro same
    obtain ⟨rfl, rfl⟩ := same
    exact (yields_remark_iff.mpr rfl).bind fun _ => yields_pure_iff.mpr ⟨rfl, rfl⟩

end Reading

namespace Grammar

@[simp] theorem blank_nil : Blank [] :=
  List.forall_mem_nil _

theorem length_le_append {segment rest : List Token} :
    rest.length ≤ (segment ++ rest).length := by
  rw [List.length_append]
  omega

theorem length_lt_of_ne_nil {segment rest : List Token} (nonempty : segment ≠ []) :
    rest.length < (segment ++ rest).length := by
  have positive := List.length_pos_iff.mpr nonempty
  rw [List.length_append]
  omega

end Grammar

namespace Selector.Parser

variable {tokens : List Token}

open Grammar

theorem skipBlank_val_iff {rest : List Token} :
    (skipBlank tokens).val = rest ↔
      ∃ blank, Blank blank ∧ tokens = blank ++ rest ∧
        Token.peek rest ≠ .whitespace := by
  have value : (skipBlank tokens).val =
      tokens.dropWhile (·.kind = .whitespace) := rfl
  rw [value]
  constructor
  · rintro rfl
    refine ⟨tokens.takeWhile (·.kind = .whitespace), ?_,
      List.takeWhile_append_dropWhile.symm, ?_⟩
    · intro token member
      have passes := List.all_takeWhile
        (p := fun token : Token => decide (token.kind = .whitespace)) (l := tokens)
      exact of_decide_eq_true (List.all_eq_true.mp passes token member)
    · cases rest : tokens.dropWhile (·.kind = .whitespace) with
      | nil => simp [Token.peek]
      | cons token others =>
          have head := List.head?_dropWhile_not
            (fun token : Token => decide (token.kind = .whitespace)) tokens
          simpa [rest, Token.peek] using head
  · intro blanks
    obtain ⟨blank, isBlank, rfl, stops⟩ := blanks
    rw [List.dropWhile_append_of_pos (by simpa [Blank] using isBlank)]
    cases rest with
    | nil => rfl
    | cons token others =>
        exact List.dropWhile_cons_of_neg (by simpa [Token.peek] using stops)

theorem skipBlank_eq_iff {rest : List Token}
    {noMore : rest.length ≤ tokens.length} :
    skipBlank tokens = ⟨rest, noMore⟩ ↔
      ∃ blank, Blank blank ∧ tokens = blank ++ rest ∧
        Token.peek rest ≠ .whitespace := by
  rw [← skipBlank_val_iff, Subtype.ext_iff]

theorem accept?_eq_some_iff {kind : TokenKind} {rest : List Token}
    {fewer : rest.length < tokens.length} :
    accept? kind tokens = some ⟨rest, fewer⟩ ↔
      ∃ token, tokens = token :: rest ∧ token.kind = kind := by
  cases tokens with
  | nil => simp [accept?]
  | cons token others =>
      simp only [accept?, List.cons.injEq]
      split
      · rename_i same
        simp only [Option.some.injEq, Subtype.mk.injEq]
        constructor
        · rintro rfl
          exact ⟨token, ⟨rfl, rfl⟩, same⟩
        · intro found
          obtain ⟨_, ⟨-, equal⟩, -⟩ := found
          exact equal
      · rename_i different
        simp only [reduceCtorEq, false_iff]
        intro found
        obtain ⟨_, ⟨rfl, -⟩, same⟩ := found
        exact different same

theorem accept?_eq_none_iff {kind : TokenKind} :
    accept? kind tokens = none ↔ ∀ token ∈ tokens.head?, token.kind ≠ kind := by
  cases tokens with
  | nil => simp [accept?]
  | cons token others => simp [accept?]

theorem readIdent?_eq_some_iff {name : String} {rest : List Token}
    {fewer : rest.length < tokens.length} :
    readIdent? tokens = some (name, ⟨rest, fewer⟩) ↔
      ∃ token, tokens = token :: rest ∧ token.kind = .ident name := by
  cases tokens with
  | nil => simp [readIdent?]
  | cons token others =>
      simp only [readIdent?, List.cons.injEq]
      split
      · rename_i found kind
        simp only [Option.some.injEq, Prod.mk.injEq, Subtype.mk.injEq]
        constructor
        · intro same
          obtain ⟨rfl, rfl⟩ := same
          exact ⟨token, ⟨rfl, rfl⟩, kind⟩
        · intro found
          obtain ⟨_, ⟨rfl, equal⟩, named⟩ := found
          exact ⟨TokenKind.ident.inj (kind.symm.trans named), equal⟩
      · rename_i other
        simp only [reduceCtorEq, false_iff]
        intro found
        obtain ⟨_, ⟨rfl, -⟩, named⟩ := found
        exact other name named

theorem readIdent?_eq_none_iff :
    readIdent? tokens = none ↔
      ∀ token ∈ tokens.head?, ∀ name, token.kind ≠ .ident name := by
  cases tokens with
  | nil => simp [readIdent?]
  | cons token others =>
      simp only [readIdent?, List.head?_cons, Option.mem_some_iff, forall_eq']
      split
      · rename_i name kind
        simp [kind]
      · rename_i other
        simpa using other

end Selector.Parser

end TreeSelectors
