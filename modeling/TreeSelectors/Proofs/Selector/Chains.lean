import TreeSelectors.Proofs.Selector.Compounds

/-!
# Reading chains and lists

A chain goes on behind a separator and ends in front of a comma, a closing
parenthesis or the end of the text.  White space in front of one of these
belongs to the list, not to the chain.
-/

namespace TreeSelectors

namespace Grammar

open Selector.Parser (endsChain)

/-- Whether a list ends in front of some tokens. -/
def EndsList (rest : List Token) : Prop :=
  endsChain rest = true ∧ Token.peek rest ≠ .comma

/-! ## What may come next -/

section

variable {σ : Type} {setting : Setting σ} {known later : σ}
  {segment blank rest : List Token} {token : Token} {combinator : Combinator}

theorem endsChain_iff :
    endsChain rest = true ↔ Token.peek rest = .comma ∨
      Token.peek rest = .rightParen ∨ Token.peek rest = .endOfInput := by
  unfold endsChain
  split
  · rename_i kind
    simp [kind]
  · rename_i kind
    simp [kind]
  · rename_i kind
    simp [kind]
  · rename_i notComma notParen notEnd
    simpa using ⟨notComma, notParen, notEnd⟩

private theorem peek_ne_whitespace_of_endsChain (ends : endsChain rest = true) :
    Token.peek rest ≠ .whitespace := by
  rcases endsChain_iff.mp ends with kind | kind | kind <;> simp [kind]

private theorem Sign.kind_ne_whitespace (sign : Sign token combinator) :
    token.kind ≠ .whitespace := by
  cases sign with
  | child kind => simp [kind]
  | nextSibling kind => simp [kind]
  | laterSibling kind => simp [kind]

private theorem Sign.startsCompound_eq_false (sign : Sign token combinator) :
    startsCompound token.kind = false := by
  cases sign with
  | child kind => rw [kind]; decide
  | nextSibling kind => rw [kind]; decide
  | laterSibling kind => rw [kind]; decide

private theorem kind_ne_whitespace_of_starts (starts : startsCompound token.kind = true) :
    token.kind ≠ .whitespace := by
  intro kind
  rw [kind] at starts
  cases starts

private theorem not_endsChain_of_starts (starts : startsCompound token.kind = true) :
    ¬ endsChain (token :: rest) = true := by
  intro ends
  rcases endsChain_iff.mp ends with kind | kind | kind
  all_goals
    change token.kind = _ at kind
    rw [kind] at starts
    cases starts

/-- A compound ends in front of everything that starts none. -/
theorem endsCompound_of_starts_eq_false
    (stops : startsCompound token.kind = false) : EndsCompound (token :: rest) := by
  intro head member
  cases member
  apply Bool.eq_false_iff.mpr
  intro starts
  rw [startsCompound_of_startsCondition starts] at stops
  cases stops

private theorem endsCompound_of_endsChain (ends : endsChain rest = true) :
    EndsCompound rest := by
  cases rest with
  | nil => simp [EndsCompound]
  | cons token others =>
      apply endsCompound_of_starts_eq_false
      apply Bool.eq_false_iff.mpr
      intro starts
      exact not_endsChain_of_starts starts ends

private theorem endsCompound_blank_append (isBlank : Blank blank)
    (ends : EndsCompound rest) : EndsCompound (blank ++ rest) := by
  cases blank with
  | nil => exact ends
  | cons space more =>
      have kind : space.kind = .whitespace := isBlank space List.mem_cons_self
      apply endsCompound_of_starts_eq_false
      rw [kind]
      rfl

theorem Separator.endsCompound {separator : List Token}
    (derived : Separator separator combinator) :
    EndsCompound (separator ++ rest) := by
  cases derived with
  | signed firstBlank sign =>
      rw [List.append_assoc]
      apply endsCompound_blank_append firstBlank
      exact endsCompound_of_starts_eq_false sign.startsCompound_eq_false
  | descendant isBlank nonempty =>
      obtain ⟨space, more, rfl⟩ := List.exists_cons_of_ne_nil nonempty
      apply endsCompound_of_starts_eq_false
      rw [isBlank space List.mem_cons_self]
      rfl

theorem Links.endsCompound {subject final : Compound}
    {left leftmost : List (Combinator × Compound)}
    (derived : Links setting known subject left segment final leftmost later)
    (isBlank : Blank blank) (ends : endsChain rest = true) :
    EndsCompound (segment ++ (blank ++ rest)) := by
  cases derived with
  | nil =>
      change EndsCompound (blank ++ rest)
      exact endsCompound_blank_append isBlank (endsCompound_of_endsChain ends)
  | cons separates =>
      rw [List.append_assoc, List.append_assoc]
      exact separates.endsCompound

theorem ChainOf.exists_cons {relative : Bool} {chain : Chain}
    (derived : ChainOf setting relative known segment chain later) :
    ∃ token more, segment = token :: more ∧ token.kind ≠ .whitespace := by
  cases derived with
  | links anchored derived linked =>
      obtain ⟨token, others, rfl, starts⟩ := derived.exists_cons
      cases anchored with
      | none => exact ⟨_, _, rfl, kind_ne_whitespace_of_starts starts⟩
      | implied => exact ⟨_, _, rfl, kind_ne_whitespace_of_starts starts⟩
      | signed sign => exact ⟨_, _, rfl, sign.kind_ne_whitespace⟩

theorem ListOf.ne_nil {relative : Bool} {selector : Selector}
    (derived : ListOf setting relative known segment selector later) :
    segment ≠ [] := by
  cases derived with
  | single firstBlank derived =>
      obtain ⟨token, others, rfl, -⟩ := derived.exists_cons
      simp
  | cons firstBlank derived =>
      obtain ⟨token, others, rfl, -⟩ := derived.exists_cons
      simp

end

end Grammar

namespace Selector.Parser

open Grammar Reading

variable {σ : Type} {context : Context σ} {setting : Setting σ}
  {remarks : List Remark} {known later : σ} {tokens rest : List Token}

/-! ## Combinators -/

theorem readCombinator?_eq_some_iff {combinator : Combinator}
    {fewer : rest.length < tokens.length} :
    readCombinator? tokens = some (combinator, ⟨rest, fewer⟩) ↔
      ∃ token, tokens = token :: rest ∧ Sign token combinator := by
  cases tokens with
  | nil => cases fewer
  | cons token others =>
      simp only [readCombinator?]
      constructor
      · intro answered
        split at answered
        · rename_i kind
          cases answered
          exact ⟨token, rfl, .child kind⟩
        · rename_i kind
          cases answered
          exact ⟨token, rfl, .nextSibling kind⟩
        · rename_i kind
          cases answered
          exact ⟨token, rfl, .laterSibling kind⟩
        · cases answered
      · intro signed
        obtain ⟨_, ⟨⟩, sign⟩ := signed
        cases sign with
        | child kind =>
            rw [kind]
            rfl
        | nextSibling kind =>
            rw [kind]
            rfl
        | laterSibling kind =>
            rw [kind]
            rfl

theorem readCombinator?_eq_none_iff :
    readCombinator? tokens = none ↔
      ∀ token ∈ tokens.head?, ∀ combinator, ¬ Sign token combinator := by
  constructor
  · intro answered token member combinator sign
    obtain ⟨others, rfl⟩ := List.head?_eq_some_iff.mp member
    have found : readCombinator? (token :: others) =
        some (combinator, ⟨others, Nat.lt_succ_self _⟩) :=
      readCombinator?_eq_some_iff.mpr ⟨token, rfl, sign⟩
    rw [found] at answered
    cases answered
  · intro unsigned
    cases answered : readCombinator? tokens with
    | none => rfl
    | some pair =>
        obtain ⟨combinator, after, fewer⟩ := pair
        obtain ⟨token, rfl, sign⟩ := readCombinator?_eq_some_iff.mp answered
        exact absurd sign (unsigned token rfl combinator)

private theorem readCombinator?_of_starts {token : Token}
    (starts : startsCompound token.kind = true) :
    readCombinator? (token :: rest) = none := by
  apply readCombinator?_eq_none_iff.mpr
  intro head member combinator sign
  cases member
  rw [sign.startsCompound_eq_false] at starts
  cases starts

private theorem readCombinator?_of_endsChain (ends : endsChain rest = true) :
    readCombinator? rest = none := by
  apply readCombinator?_eq_none_iff.mpr
  intro token member combinator sign
  obtain ⟨others, rfl⟩ := List.head?_eq_some_iff.mp member
  cases sign with
  | child kind | nextSibling kind | laterSibling kind =>
      rcases endsChain_iff.mp ends with other | other | other
      all_goals cases kind.symm.trans other

/-! ## Links -/

/-- A link whose combinator is written. -/
theorem readLinks_signed {start afterSign next : List Token}
    {subject : Compound} {left : List (Combinator × Compound)}
    {combinator : Combinator} {noMore : start.length ≤ tokens.length}
    {fewer : afterSign.length < start.length}
    {noMoreNext : next.length ≤ afterSign.length}
    (skipped : skipBlank tokens = ⟨start, noMore⟩)
    (signed : readCombinator? start = some (combinator, ⟨afterSign, fewer⟩))
    (skippedNext : skipBlank afterSign = ⟨next, noMoreNext⟩) :
    readLinks context subject left tokens = (do
      let (compound, ⟨rest, shorter⟩) ← readCompound context next
      let (links, ⟨final, fits⟩) ←
        readLinks context compound ((combinator, subject) :: left) rest
      return (links, ⟨final, Nat.le_trans fits (Nat.le_trans (Nat.le_of_lt shorter)
        (Nat.le_trans noMoreNext (Nat.le_trans (Nat.le_of_lt fewer) noMore)))⟩)) := by
  rw [readLinks, skipped]
  dsimp only
  rw [signed]
  dsimp only
  rw [skippedNext]

/-- No further link. -/
theorem readLinks_ended {start : List Token} {subject : Compound}
    {left : List (Combinator × Compound)} {noMore : start.length ≤ tokens.length}
    (skipped : skipBlank tokens = ⟨start, noMore⟩)
    (ends : endsChain start = true) :
    readLinks context subject left tokens =
      return ((subject, left), ⟨start, noMore⟩) := by
  rw [readLinks, skipped]
  dsimp only
  rw [readCombinator?_of_endsChain ends]
  simp [ends]

/-- A link by white space alone. -/
theorem readLinks_descendant {start : List Token} {subject : Compound}
    {left : List (Combinator × Compound)} {noMore : start.length ≤ tokens.length}
    (skipped : skipBlank tokens = ⟨start, noMore⟩)
    (unsigned : readCombinator? start = none) (goesOn : ¬ endsChain start = true)
    (fewer : start.length < tokens.length) :
    readLinks context subject left tokens = (do
      let (compound, ⟨rest, shorter⟩) ← readCompound context start
      let (links, ⟨final, fits⟩) ←
        readLinks context compound ((.descendant, subject) :: left) rest
      return (links, ⟨final, Nat.le_trans fits (Nat.le_trans (Nat.le_of_lt shorter)
        noMore)⟩)) := by
  rw [readLinks, skipped]
  dsimp only
  rw [unsigned]
  simp [goesOn, fewer]

/-- Reading a compound and the links after it. -/
theorem readLink_sound (reads : context.Reads setting)
    {start : List Token} {subject : Compound}
    {left : List (Combinator × Compound)} {combinator : Combinator}
    {fits : rest.length ≤ tokens.length} {final : Compound}
    {leftmost : List (Combinator × Compound)} (noMore : start.length ≤ tokens.length)
    (answered : Yields (do
        let (compound, ⟨rest, shorter⟩) ← readCompound context start
        let (links, ⟨final, fits⟩) ←
          readLinks context compound ((combinator, subject) :: left) rest
        return (links, ⟨final, Nat.le_trans fits (Nat.le_trans (Nat.le_of_lt shorter)
          noMore)⟩)) remarks known
        ((final, leftmost), (⟨rest, fits⟩ : NoMore tokens)) later) :
    ∃ segment after next between others fewer,
      start = segment ++ after ∧ after.length < start.length ∧
        CompoundOf setting known segment next between ∧
        Yields (readLinks context next ((combinator, subject) :: left) after)
          others between ((final, leftmost), ⟨rest, fewer⟩) later := by
  obtain ⟨⟨next, after, shorter⟩, between, others, found, result⟩ :=
    answered.exists_first
  obtain ⟨segment, rfl, derived, -⟩ := readCompound_sound reads found
  obtain ⟨⟨links, ending, fewer⟩, learnt, _, continued, result⟩ :=
    result.exists_first
  obtain ⟨⟨rfl, rfl⟩, rfl⟩ := yields_pair_iff.mp result
  exact ⟨segment, after, next, between, others, fewer, rfl, shorter, derived,
    continued⟩

private theorem readLinks_sound (reads : context.Reads setting) {subject final : Compound}
    {left leftmost : List (Combinator × Compound)}
    {noMore : rest.length ≤ tokens.length}
    (answered : Yields (readLinks context subject left tokens) remarks known
      ((final, leftmost), ⟨rest, noMore⟩) later) :
    ∃ segment blank, tokens = segment ++ (blank ++ rest) ∧ Blank blank ∧
      Links setting known subject left segment final leftmost later ∧
      endsChain rest = true := by
  -- Each link leaves fewer tokens for those after it.
  induction tokens using (measure List.length).wf.induction generalizing
    remarks known later subject left with
  | _ tokens continues =>
  generalize skipped : skipBlank tokens = start at answered
  obtain ⟨start, startFits⟩ := start
  obtain ⟨blank, isBlank, split, notBlank⟩ := skipBlank_eq_iff.mp skipped
  cases signed : readCombinator? start with
  | some pair =>
      obtain ⟨combinator, afterSign, fewer⟩ := pair
      generalize skippedNext : skipBlank afterSign = next
      obtain ⟨next, nextFits⟩ := next
      rw [readLinks_signed skipped signed skippedNext] at answered
      have noMore : next.length ≤ tokens.length :=
        Nat.le_trans nextFits (Nat.le_trans (Nat.le_of_lt fewer) startFits)
      obtain ⟨segment, after, compound, between, _, _, rfl, shorter, derived,
        continued⟩ := readLink_sound reads noMore answered
      obtain ⟨more, last, rfl, lastBlank, linked, ends⟩ :=
        continues _ (Nat.lt_of_lt_of_le shorter noMore) continued
      obtain ⟨token, rfl, sign⟩ := readCombinator?_eq_some_iff.mp signed
      obtain ⟨second, secondBlank, rfl, -⟩ := skipBlank_eq_iff.mp skippedNext
      refine ⟨(blank ++ token :: second) ++ segment ++ more, last, by simp [split],
        lastBlank, ?_, ends⟩
      exact .cons (.signed isBlank sign secondBlank) derived linked
  | none =>
      by_cases ends : endsChain start = true
      · rw [readLinks_ended skipped ends] at answered
        obtain ⟨⟨⟨⟩, rfl⟩, rfl⟩ := yields_pair_iff.mp answered
        exact ⟨[], blank, split, isBlank, .nil, ends⟩
      · by_cases fewer : start.length < tokens.length
        · rw [readLinks_descendant skipped signed ends fewer] at answered
          obtain ⟨segment, after, compound, between, _, _, rfl, shorter, derived,
            continued⟩ := readLink_sound reads startFits answered
          obtain ⟨more, last, rfl, lastBlank, linked, ends⟩ :=
            continues _ (Nat.lt_trans shorter fewer) continued
          have nonempty : blank ≠ [] := by
            rintro rfl
            rw [split] at fewer
            exact Nat.lt_irrefl _ fewer
          refine ⟨blank ++ segment ++ more, last, by simp [split], lastBlank, ?_,
            ends⟩
          exact .cons (.descendant isBlank nonempty) derived linked
        · rw [readLinks, skipped] at answered
          dsimp only at answered
          rw [signed] at answered
          simp only [ends, fewer, Bool.false_eq_true, if_false] at answered
          exact absurd answered not_yields_throw

private theorem readLinks_complete (reads : context.Reads setting)
    {segment blank : List Token} {subject final : Compound}
    {left leftmost : List (Combinator × Compound)}
    (derived : Links setting known subject left segment final leftmost later)
    (isBlank : Blank blank) (ends : endsChain rest = true)
    (split : tokens = segment ++ (blank ++ rest))
    (fits : rest.length ≤ tokens.length) :
    Yields (readLinks context subject left tokens) remarks known
      ((final, leftmost), ⟨rest, fits⟩) later := by
  induction derived generalizing remarks tokens with
  | nil =>
      have skipped : skipBlank tokens = ⟨rest, fits⟩ :=
        skipBlank_eq_iff.mpr
          ⟨blank, isBlank, split, peek_ne_whitespace_of_endsChain ends⟩
      rw [readLinks_ended skipped ends]
      exact yields_pure_iff.mpr ⟨rfl, rfl⟩
  | @cons _ _ _ _ next _ _ _ separator segment more combinator separates derived
      linked continues =>
      have stops := linked.endsCompound isBlank ends
      have moreFits : rest.length ≤ (more ++ (blank ++ rest)).length :=
        Nat.le_trans length_le_append length_le_append
      obtain ⟨token, others, rfl, starts⟩ := derived.exists_cons
      have notBlank := kind_ne_whitespace_of_starts starts
      cases separates with
      | @signed first second sign _ firstBlank signed secondBlank =>
          have skipped : skipBlank tokens = ⟨sign :: (second ++
              (token :: others ++ (more ++ (blank ++ rest)))), by simp [split]⟩ :=
            skipBlank_eq_iff.mpr ⟨first, firstBlank, by simp [split],
              signed.kind_ne_whitespace⟩
          have found : readCombinator? (sign :: (second ++
              (token :: others ++ (more ++ (blank ++ rest))))) =
              some (combinator, ⟨_, Nat.lt_succ_self _⟩) :=
            readCombinator?_eq_some_iff.mpr ⟨sign, rfl, signed⟩
          have skippedNext : skipBlank (second ++
              (token :: others ++ (more ++ (blank ++ rest)))) =
              ⟨token :: others ++ (more ++ (blank ++ rest)), length_le_append⟩ :=
            skipBlank_eq_iff.mpr ⟨second, secondBlank, rfl, notBlank⟩
          rw [readLinks_signed skipped found skippedNext]
          exact (readCompound_complete reads derived stops).bind fun _ =>
            (continues rfl moreFits).bind fun _ => yields_pure_iff.mpr ⟨rfl, rfl⟩
      | descendant isSeparator nonempty =>
          have skipped : skipBlank tokens =
              ⟨token :: others ++ (more ++ (blank ++ rest)), by simp [split]⟩ :=
            skipBlank_eq_iff.mpr ⟨separator, isSeparator, by simp [split], notBlank⟩
          have fewer : (token :: others ++ (more ++ (blank ++ rest))).length <
              tokens.length := by
            have positive := List.length_pos_iff.mpr nonempty
            simp only [split, List.length_append]
            omega
          rw [readLinks_descendant skipped (readCombinator?_of_starts starts)
            (not_endsChain_of_starts starts) fewer]
          exact (readCompound_complete reads derived stops).bind fun _ =>
            (continues rfl moreFits).bind fun _ => yields_pure_iff.mpr ⟨rfl, rfl⟩

/-! ## Chains -/

theorem readAnchor_eq_iff {relative : Bool} {anchor : Option Combinator}
    {noMore : rest.length ≤ tokens.length}
    (notBlank : Token.peek tokens ≠ .whitespace)
    (starts : ∃ token others, rest = token :: others ∧
      startsCompound token.kind = true) :
    readAnchor relative tokens = (anchor, ⟨rest, noMore⟩) ↔
      ∃ segment, tokens = segment ++ rest ∧ Anchor relative segment anchor := by
  obtain ⟨token, others, rfl, starts⟩ := starts
  constructor
  · intro answered
    cases relative with
    | false =>
        cases answered
        exact ⟨[], rfl, .none⟩
    | true =>
        simp only [readAnchor, if_true] at answered
        split at answered
        · rename_i combinator after _ signed
          obtain ⟨sign, rfl, isSign⟩ := readCombinator?_eq_some_iff.mp signed
          generalize skipped : skipBlank after = start at answered
          obtain ⟨start, fits⟩ := start
          cases answered
          obtain ⟨blank, isBlank, rfl, -⟩ := skipBlank_eq_iff.mp skipped
          exact ⟨sign :: blank, rfl, .signed isSign isBlank⟩
        · simp only [Prod.mk.injEq] at answered
          obtain ⟨rfl, skipped⟩ := answered
          obtain ⟨blank, isBlank, rfl, -⟩ := skipBlank_eq_iff.mp skipped
          cases blank with
          | nil => exact ⟨[], rfl, .implied⟩
          | cons space more =>
              exact absurd (isBlank space List.mem_cons_self) notBlank
  · intro derivation
    obtain ⟨segment, rfl, derived⟩ := derivation
    have rested := kind_ne_whitespace_of_starts starts
    cases derived with
    | none => rfl
    | implied =>
        have skipped : skipBlank (token :: others) = ⟨token :: others, Nat.le_refl _⟩ :=
          skipBlank_eq_iff.mpr ⟨[], blank_nil, rfl, rested⟩
        simp only [readAnchor, if_true, List.nil_append]
        rw [readCombinator?_of_starts starts]
        simp [skipped]
    | @signed sign blank combinator isSign isBlank =>
        have found : readCombinator? (sign :: (blank ++ token :: others)) =
            some (combinator, ⟨_, Nat.lt_succ_self _⟩) :=
          readCombinator?_eq_some_iff.mpr ⟨sign, rfl, isSign⟩
        have skipped : skipBlank (blank ++ token :: others) =
            ⟨token :: others, by simp⟩ :=
          skipBlank_eq_iff.mpr ⟨blank, isBlank, rfl, rested⟩
        simp only [readAnchor, if_true, List.cons_append]
        rw [found]
        dsimp only
        rw [skipped]

theorem readChain_sound (reads : context.Reads setting) {relative : Bool}
    {chain : Chain} {fewer : rest.length < tokens.length}
    (notBlank : Token.peek tokens ≠ .whitespace)
    (answered : Yields (readChain context relative tokens) remarks known
      (chain, ⟨rest, fewer⟩) later) :
    ∃ segment blank, tokens = segment ++ (blank ++ rest) ∧ Blank blank ∧
      ChainOf setting relative known segment chain later ∧
      endsChain rest = true := by
  simp only [readChain] at answered
  generalize anchored : readAnchor relative tokens = opening at answered
  obtain ⟨anchor, start, fits⟩ := opening
  obtain ⟨⟨first, after, shorter⟩, between, _, found, result⟩ :=
    answered.exists_first
  obtain ⟨segment, rfl, derived, -⟩ := readCompound_sound reads found
  obtain ⟨⟨⟨subject, left⟩, final, _⟩, learnt, _, followed, result⟩ :=
    result.exists_first
  obtain ⟨⟨rfl, rfl⟩, rfl⟩ := yields_pair_iff.mp result
  obtain ⟨more, blank, rfl, isBlank, linked, ends⟩ := readLinks_sound reads followed
  have starts : ∃ token others,
      segment ++ (more ++ (blank ++ final)) = token :: others ∧
        startsCompound token.kind = true := by
    obtain ⟨token, others, rfl, starts⟩ := derived.exists_cons
    exact ⟨token, _, rfl, starts⟩
  obtain ⟨sign, rfl, anchor⟩ := (readAnchor_eq_iff notBlank starts).mp anchored
  exact ⟨sign ++ segment ++ more, blank, by simp, isBlank,
    .links anchor derived linked, ends⟩

private theorem readChain_complete (reads : context.Reads setting) {relative : Bool}
    {segment blank : List Token} {chain : Chain}
    (derived : ChainOf setting relative known segment chain later)
    (isBlank : Blank blank) (ends : endsChain rest = true)
    (split : tokens = segment ++ (blank ++ rest))
    (fewer : rest.length < tokens.length) :
    Yields (readChain context relative tokens) remarks known
      (chain, ⟨rest, fewer⟩) later := by
  have notBlank : Token.peek tokens ≠ .whitespace := by
    obtain ⟨token, others, rfl, notBlank⟩ := derived.exists_cons
    rw [split]
    exact notBlank
  obtain ⟨anchored, derived, linked⟩ := derived
  rename_i between sign segment more anchor first subject left
  have stops := linked.endsCompound isBlank ends
  have moreFits : rest.length ≤ (more ++ (blank ++ rest)).length :=
    Nat.le_trans length_le_append length_le_append
  have starts : ∃ token others,
      segment ++ (more ++ (blank ++ rest)) = token :: others ∧
        startsCompound token.kind = true := by
    obtain ⟨token, others, rfl, starts⟩ := derived.exists_cons
    exact ⟨token, _, rfl, starts⟩
  have opening : readAnchor relative tokens =
      (anchor, ⟨segment ++ (more ++ (blank ++ rest)), by simp [split]⟩) :=
    (readAnchor_eq_iff notBlank starts).mpr ⟨sign, by simp [split], anchored⟩
  simp only [readChain]
  rw [opening]
  exact (readCompound_complete reads derived stops).bind fun _ =>
    (readLinks_complete reads linked isBlank ends rfl moreFits).bind fun _ =>
      yields_pure_iff.mpr ⟨rfl, rfl⟩

/-! ## Lists -/

private theorem skipBlank_of_endsChain (ends : endsChain rest = true) :
    skipBlank rest = ⟨rest, Nat.le_refl _⟩ :=
  skipBlank_eq_iff.mpr
    ⟨[], blank_nil, rfl, peek_ne_whitespace_of_endsChain ends⟩

private theorem accept?_comma_eq_none_iff :
    accept? .comma rest = none ↔ Token.peek rest ≠ .comma := by
  rw [accept?_eq_none_iff]
  cases rest with
  | nil => simp [Token.peek]
  | cons token others => simp [Token.peek]

theorem readChains_sound (reads : context.Reads setting) {relative : Bool}
    {selector : Selector} {fewer : rest.length < tokens.length}
    (answered : Yields (readChains context relative tokens) remarks known
      (selector, ⟨rest, fewer⟩) later) :
    ∃ segment, tokens = segment ++ rest ∧
      ListOf setting relative known segment selector later ∧ EndsList rest := by
  -- Each chain leaves fewer tokens for those after it.
  induction tokens using (measure List.length).wf.induction generalizing
    remarks known later selector rest with
  | _ tokens continues =>
  rw [readChains] at answered
  generalize skipped : skipBlank tokens = start at answered
  obtain ⟨start, startFits⟩ := start
  obtain ⟨blank, isBlank, rfl, notBlank⟩ := skipBlank_eq_iff.mp skipped
  obtain ⟨⟨chain, after, shorter⟩, between, _, found, result⟩ :=
    answered.exists_first
  have reached : after.length < (blank ++ start).length :=
    Nat.lt_of_lt_of_le shorter startFits
  obtain ⟨segment, last, rfl, lastBlank, derived, ends⟩ :=
    readChain_sound reads notBlank found
  dsimp only at result
  rw [skipBlank_of_endsChain ends] at result
  cases accepted : accept? .comma after with
  | some pair =>
      obtain ⟨afterComma, closer⟩ := pair
      dsimp only at result
      rw [accepted] at result
      obtain ⟨⟨more, final, _⟩, learnt, _, continued, result⟩ := result.exists_first
      obtain ⟨⟨rfl, rfl⟩, rfl⟩ := yields_pair_iff.mp result
      obtain ⟨others, rfl, listed, listEnds⟩ :=
        continues _ (Nat.lt_trans closer reached) continued
      obtain ⟨comma, rfl, kind⟩ := accept?_eq_some_iff.mp accepted
      refine ⟨blank ++ segment ++ last ++ comma :: others, by simp, ?_, listEnds⟩
      exact .cons isBlank derived lastBlank kind listed
  | none =>
      dsimp only at result
      rw [accepted] at result
      obtain ⟨⟨rfl, rfl⟩, rfl⟩ := yields_pair_iff.mp result
      refine ⟨blank ++ segment ++ last, by simp, .single isBlank derived lastBlank,
        ends, ?_⟩
      exact accept?_comma_eq_none_iff.mp accepted

/-- Reading goes on behind a chain at the token that ends it. -/
theorem readChains_of_chain (reads : context.Reads setting) {relative : Bool}
    {first segment last after : List Token} {chain : Chain} {between : σ}
    {selector : Selector} {fewer : rest.length < tokens.length}
    (firstBlank : Blank first)
    (derived : ChainOf setting relative known segment chain between)
    (lastBlank : Blank last) (ends : endsChain after = true)
    (split : tokens = first ++ (segment ++ (last ++ after)))
    (fits : after.length < tokens.length)
    (continues : ∀ others, Yields (match accept? .comma after with
      | some ⟨afterComma, closer⟩ => do
          let (more, ⟨final, shorter⟩) ← readChains context relative afterComma
          return (chain :: more,
            ⟨final, Nat.lt_trans shorter (Nat.lt_trans closer fits)⟩)
      | none => return ([chain], (⟨after, fits⟩ : Fewer tokens)))
      others between (selector, ⟨rest, fewer⟩) later) :
    Yields (readChains context relative tokens) remarks known
      (selector, ⟨rest, fewer⟩) later := by
  have notBlank : Token.peek (segment ++ (last ++ after)) ≠ .whitespace := by
    obtain ⟨token, others, rfl, notBlank⟩ := derived.exists_cons
    exact notBlank
  have shorter : after.length < (segment ++ (last ++ after)).length := by
    obtain ⟨token, others, rfl, -⟩ := derived.exists_cons
    exact Nat.lt_of_le_of_lt length_le_append
      (length_lt_of_ne_nil (List.cons_ne_nil _ _))
  have skipped : skipBlank tokens =
      ⟨segment ++ (last ++ after), by simp [split]⟩ :=
    skipBlank_eq_iff.mpr ⟨first, firstBlank, split, notBlank⟩
  rw [readChains, skipped]
  refine (readChain_complete reads derived lastBlank ends rfl shorter).bind ?_
  intro others
  dsimp only
  rw [skipBlank_of_endsChain ends]
  exact continues others

theorem readChains_complete (reads : context.Reads setting) {relative : Bool}
    {segment : List Token} {selector : Selector}
    (derived : ListOf setting relative known segment selector later)
    (ends : EndsList rest) (split : tokens = segment ++ rest)
    (fewer : rest.length < tokens.length) :
    Yields (readChains context relative tokens) remarks known
      (selector, ⟨rest, fewer⟩) later := by
  induction derived generalizing remarks tokens with
  | single firstBlank derived lastBlank =>
      have unlisted : accept? .comma rest = none :=
        accept?_comma_eq_none_iff.mpr ends.2
      refine readChains_of_chain reads firstBlank derived lastBlank ends.1
        (by simp [split]) fewer fun _ => ?_
      rw [unlisted]
      exact yields_pure_iff.mpr ⟨rfl, rfl⟩
  | @cons _ _ _ first segment last others comma chain more firstBlank derived
      lastBlank kind listed continues =>
      have accepted : accept? .comma (comma :: (others ++ rest)) =
          some ⟨others ++ rest, Nat.lt_succ_self _⟩ :=
        accept?_eq_some_iff.mpr ⟨comma, rfl, kind⟩
      have fits : (comma :: (others ++ rest)).length < tokens.length := by
        obtain ⟨token, inner, rfl, -⟩ := derived.exists_cons
        simp only [split, List.length_append, List.length_cons]
        omega
      have chainEnds : endsChain (comma :: (others ++ rest)) = true :=
        endsChain_iff.mpr (Or.inl kind)
      refine readChains_of_chain reads firstBlank derived lastBlank chainEnds
        (by simp [split]) fits fun _ => ?_
      rw [accepted]
      exact (continues rfl (length_lt_of_ne_nil listed.ne_nil)).bind fun _ =>
        yields_pure_iff.mpr ⟨rfl, rfl⟩

end Selector.Parser

end TreeSelectors
