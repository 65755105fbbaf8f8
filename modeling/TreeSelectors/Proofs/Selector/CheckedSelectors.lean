import TreeSelectors.Proofs.Selector.CheckedTerms

/-!
# Selectors within bounds

The readers of pseudo-classes, compounds, chains and lists by positions follow those of
tokens, and with them the reader of a whole text.  So reading by positions never looks
outside of a text or behind its last token, and no loop of it takes more rounds than there
are tokens.
-/

namespace TreeSelectors

namespace CheckedReading

open Selector.Parser (ArgumentReader Fewer NoMore)

variable {σ α β : Type} {text : String} {position : Nat} {token : Token}
  {rest tokens : List Token} {aliases : AliasSource σ} {opened : Option Nat}
  {checkedArgument : (opening : Nat) → (relative : Bool) → CheckedReading σ Selector}
  {argument : ArgumentReader σ}

/-- Arguments are read alike. -/
def ArgumentsFollow (text : String)
    (checkedArgument : (opening : Nat) → (relative : Bool) → CheckedReading σ Selector)
    (argument : ArgumentReader σ) : Prop :=
  ∀ opening relative position tokens, Token.At text position tokens →
    Follows (Arrives text) position (checkedArgument opening relative)
      (argument opening relative tokens)

/-- What is read is either nothing, and the cursor stays, or a value. -/
inductive Offered (text : String) (position : Nat) {left : List Token → Prop} :
    Option (α × { rest : List Token // left rest }) → Option α → Nat → Prop where
  | none : Offered text position none none position
  | some {given : α × { rest : List Token // left rest }} {value : α} {final : Nat} :
      Arrives text given value final →
      Offered text position (some given) (some value) final

/-! ## Pseudo-classes and pseudo-elements -/

section

variable (follow : ArgumentsFollow text checkedArgument argument)

include follow

private theorem follows_pseudoFunction (name : String) (opening : Nat)
    (here : Token.At text position tokens) :
    Follows (Arrives text) position
      (pseudoFunction ⟨.ofText text, aliases, opened, checkedArgument⟩ name opening)
      (Selector.Parser.pseudoFunction ⟨aliases, opened, argument⟩ name opening tokens) := by
  unfold pseudoFunction Selector.Parser.pseudoFunction
  dsimp only
  cases SelectorFunction.ofName? (Text.foldCase name) with
  | some function =>
      refine (follow opening _ position tokens here).bind ?_
      rintro ⟨selector, rest⟩ _ _ ⟨rfl, there⟩
      exact .pure ⟨rfl, there⟩
  | none =>
      cases Counting.ofName? (Text.foldCase name) with
      | some counting =>
          refine (follows_readFormula here).bind ?_
          rintro ⟨formula, rest⟩ _ _ ⟨rfl, there⟩
          exact .pure ⟨rfl, there⟩
      | none =>
          dsimp only
          split
          · exact .refuse _
          · exact .refuse _

private theorem follows_readPseudo (here : Token.At text position tokens) :
    Follows (Arrives text) position
      (readPseudo ⟨.ofText text, aliases, opened, checkedArgument⟩)
      (Selector.Parser.readPseudo ⟨aliases, opened, argument⟩ tokens) := by
  obtain ⟨token, rest, rfl⟩ := here.exists_cons
  refine .step (gets_current here) ?_
  dsimp only [Token.span]
  rw [Selector.Parser.readPseudo]
  cases kind : token.kind with
  | colon =>
      obtain ⟨there, advances⟩ := passes here kind (by simp)
      refine .step advances ?_
      rcases readIdent?_cases there with
        ⟨name, after, _, named, there, peeks, advances⟩ | ⟨found, peeks, other, named⟩
      · simp only [named]
        refine .step peeks (.step advances ?_)
        refine (Follows.of _).bind_right ?_
        rintro simple _ _ ⟨rfl, rfl⟩
        exact .pure ⟨rfl, there⟩
      · simp only [named]
        refine .step peeks ?_
        split
        · exact absurd rfl (other _)
        · exact follows_refuseHere opened there
  | ident name =>
      obtain ⟨there, advances⟩ := passes here kind (by simp)
      refine .step advances ?_
      refine (Follows.of _).bind_right ?_
      rintro simple _ _ ⟨rfl, rfl⟩
      exact .pure ⟨rfl, there⟩
  | function name =>
      obtain ⟨there, advances⟩ := passes here kind (by simp)
      refine .step advances ?_
      refine (follows_pseudoFunction follow name token.start there).bind_right ?_
      rintro ⟨simple, after, _⟩ _ _ ⟨rfl, there⟩
      exact .pure ⟨rfl, there⟩
  | _ => exact follows_refuseHere opened here

/-! ## Compounds -/

omit follow in
private theorem follows_readClassName (here : Token.At text position tokens) :
    Follows (Arrives text) position
      (readClassName ⟨.ofText text, aliases, opened, checkedArgument⟩)
      (Reading.ofExcept (Selector.Parser.readClassName opened tokens)) := by
  obtain ⟨token, rest, rfl⟩ := here.exists_cons
  refine .step (gets_current here)
    (.step (gets_startsWithDigit here (Nat.zero_le _)) ?_)
  dsimp only [Token.span]
  rw [Selector.Parser.readClassName]
  cases kind : token.kind with
  | ident name =>
      obtain ⟨there, advances⟩ := passes here kind (by simp)
      cases token.startsWithDigit 0 with
      | true => exact follows_refuseHere opened here
      | false => exact .step advances (.pure ⟨rfl, there⟩)
  | _ => exact follows_refuseHere opened here

private theorem follows_readCondition? (here : Token.At text position (token :: rest)) :
    Follows (Offered text position) position
      (readCondition? ⟨.ofText text, aliases, opened, checkedArgument⟩)
      (Selector.Parser.readCondition? ⟨aliases, opened, argument⟩ token rest) := by
  refine .step (gets_current here) ?_
  dsimp only [Token.span]
  rw [Selector.Parser.readCondition?]
  cases kind : token.kind with
  | hash name =>
      obtain ⟨there, advances⟩ := passes here kind (by simp)
      -- The offset behind the sign is no further than where the token stops.
      have fits : 1 ≤ token.text.length :=
        List.length_pos_iff.mpr (here.text_nonempty (by simp [kind]))
      refine .step (gets_startsWithDigit here fits) ?_
      dsimp only
      split
      · exact follows_refuseHere opened here
      · exact .step advances (.pure (.some ⟨rfl, there⟩))
  | delim char =>
      obtain ⟨there, advances⟩ := passes here kind (by simp)
      by_cases dot : char = '.'
      · subst dot
        refine .step advances ?_
        refine (follows_readClassName there).bind ?_
        rintro ⟨simple, after, _⟩ _ _ ⟨rfl, there⟩
        exact .pure (.some ⟨rfl, there⟩)
      · simp only [TokenKind.delim.injEq, dot, imp_self]
        exact .pure .none
  | leftBracket =>
      obtain ⟨there, advances⟩ := passes here kind (by simp)
      refine .step advances ?_
      refine (follows_readAttribute there).bind ?_
      rintro ⟨test, after, _⟩ _ _ ⟨rfl, there⟩
      exact .pure (.some ⟨rfl, there⟩)
  | colon =>
      obtain ⟨there, advances⟩ := passes here kind (by simp)
      refine .step advances ?_
      refine (follows_readPseudo follow there).bind ?_
      rintro ⟨simple, after, _⟩ _ _ ⟨rfl, there⟩
      exact .pure (.some ⟨rfl, there⟩)
  | _ => exact .pure .none

private theorem follows_readFirst? (here : Token.At text position (token :: rest)) :
    Follows (Offered text position) position
      (readFirst? ⟨.ofText text, aliases, opened, checkedArgument⟩)
      (Selector.Parser.readFirst? ⟨aliases, opened, argument⟩ token rest) := by
  refine .step (gets_current here) ?_
  dsimp only [Token.span]
  rw [Selector.Parser.readFirst?]
  cases kind : token.kind with
  | ident name =>
      obtain ⟨there, advances⟩ := passes here kind (by simp)
      refine .step (gets_startsWithDigit here (Nat.zero_le _)) ?_
      dsimp only
      split
      · exact follows_refuseHere opened here
      · exact .step advances (.pure (.some ⟨rfl, there⟩))
  | delim char =>
      obtain ⟨there, advances⟩ := passes here kind (by simp)
      by_cases star : char = '*'
      · subst star
        exact .step advances (.pure (.some ⟨rfl, there⟩))
      · simp only [TokenKind.delim.injEq, star, imp_self]
        exact follows_readCondition? follow here
  | _ => exact follows_readCondition? follow here

private theorem follows_readConditionsWithin {rounds : Nat}
    (here : Token.At text position tokens)
    (enough : tokens.length ≤ rounds) :
    Follows (Arrives text) position
      (readConditionsWithin ⟨.ofText text, aliases, opened, checkedArgument⟩ rounds)
      (Selector.Parser.readConditions ⟨aliases, opened, argument⟩ tokens) := by
  induction rounds generalizing position tokens with
  | zero => exact absurd enough (Nat.not_le.mpr here.length_pos)
  | succ rounds induction =>
      obtain ⟨token, rest, rfl⟩ := here.exists_cons
      rw [Selector.Parser.readConditions]
      refine (follows_readCondition? follow here).bind ?_
      rintro _ _ _ (_ | @⟨⟨simple, after, fits⟩, _, _, rfl, there⟩)
      · exact .pure ⟨rfl, here⟩
      · have fewer : after.length ≤ rounds :=
          Nat.le_trans fits (Nat.le_of_succ_le_succ enough)
        refine (induction there fewer).bind ?_
        rintro ⟨more, left, _⟩ _ _ ⟨rfl, there⟩
        exact .pure ⟨rfl, there⟩

private theorem follows_readCompound (here : Token.At text position tokens) :
    Follows (Arrives text) position
      (readCompound ⟨.ofText text, aliases, opened, checkedArgument⟩)
      (Selector.Parser.readCompound ⟨aliases, opened, argument⟩ tokens) := by
  obtain ⟨token, rest, rfl⟩ := here.exists_cons
  rw [Selector.Parser.readCompound]
  refine (follows_readFirst? follow here).bind ?_
  rintro _ _ _ (_ | @⟨⟨simple, after, fits⟩, _, _, rfl, there⟩)
  · exact follows_refuseHere opened here
  · refine (follows_readConditionsWithin follow there (length_le_rounds there)).bind ?_
    rintro ⟨more, left, _⟩ _ _ ⟨rfl, there⟩
    exact .pure ⟨rfl, there⟩

/-! ## Chains and lists -/

omit follow in
/-- A sign is read alike, if one comes next. -/
theorem readCombinator?_cases (here : Token.At text position tokens) :
    (∃ combinator rest fits,
      Selector.Parser.readCombinator? tokens = some (combinator, ⟨rest, fits⟩) ∧
      Token.At text (position + 1) rest ∧
      Gets (readCombinator? ⟨.ofText text, aliases, opened, checkedArgument⟩) position
        (some combinator) (position + 1)) ∨
    (Selector.Parser.readCombinator? tokens = none ∧
      Gets (readCombinator? ⟨.ofText text, aliases, opened, checkedArgument⟩) position
        none position) := by
  obtain ⟨token, rest, rfl⟩ := here.exists_cons
  rw [Selector.Parser.readCombinator?]
  cases kind : token.kind with
  | delim char =>
      obtain ⟨there, advances⟩ := passes here kind (by simp)
      have signs (combinator : Combinator) :
          Gets (do advance (.ofText text); return some combinator : CheckedReading σ _)
            position (some combinator) (position + 1) :=
        advances.step (.pure _)
      by_cases child : char = '>'
      · subst child
        exact .inl ⟨.child, rest, Nat.lt_succ_self _, rfl, there,
          (gets_peek here kind).step (signs _)⟩
      · by_cases next : char = '+'
        · subst next
          exact .inl ⟨.nextSibling, rest, Nat.lt_succ_self _, rfl, there,
            (gets_peek here kind).step (signs _)⟩
        · by_cases later : char = '~'
          · subst later
            exact .inl ⟨.laterSibling, rest, Nat.lt_succ_self _, rfl, there,
              (gets_peek here kind).step (signs _)⟩
          · refine .inr ⟨?_, (gets_peek here kind).step ?_⟩
            · simp only [TokenKind.delim.injEq, child, next, later, imp_self]
            · simp only [TokenKind.delim.injEq, child, next, later, imp_self]
              exact .pure _
  | _ => exact .inr ⟨rfl, (gets_peek here kind).step (.pure _)⟩

omit follow in
private theorem endsChain_peek (tokens : List Token) :
    endsChain (Token.peek tokens) = Selector.Parser.endsChain tokens :=
  rfl

private theorem follows_readLinksWithin {rounds : Nat} (subject : Compound)
    (left : List (Combinator × Compound)) (here : Token.At text position tokens)
    (enough : tokens.length ≤ rounds) :
    Follows (Arrives text) position
      (readLinksWithin ⟨.ofText text, aliases, opened, checkedArgument⟩ rounds subject left)
      (Selector.Parser.readLinks ⟨aliases, opened, argument⟩ subject left tokens) := by
  induction rounds generalizing position tokens subject left with
  | zero => exact absurd enough (Nat.not_le.mpr here.length_pos)
  | succ rounds induction =>
      rw [Selector.Parser.readLinks]
      obtain ⟨_, gap, there, skips, shorter⟩ := exists_skipBlank here
      refine .step skips ?_
      dsimp only
      have fits := (Selector.Parser.skipBlank tokens).property
      rcases readCombinator?_cases there with
        ⟨combinator, after, fewer, signed, behind, signs⟩ | ⟨unsigned, signs⟩
      · obtain ⟨_, _, next, skips, -⟩ := exists_skipBlank behind
        have fitsAfter := (Selector.Parser.skipBlank after).property
        simp only [signed]
        refine .step signs (.step skips ?_)
        refine (follows_readCompound follow next).bind ?_
        rintro ⟨compound, rest, less⟩ _ _ ⟨rfl, next⟩
        refine (induction compound _ next (by dsimp only; omega)).bind_right ?_
        rintro ⟨links, final, _⟩ _ _ ⟨rfl, last⟩
        exact .pure ⟨rfl, last⟩
      · simp only [unsigned]
        refine .step signs (.step (gets_peek_head there) ?_)
        rw [endsChain_peek]
        by_cases last : Selector.Parser.endsChain (Selector.Parser.skipBlank tokens).val
        · rw [if_pos last, if_pos last]
          exact .pure ⟨rfl, there⟩
        · rw [if_neg last, if_neg last]
          -- There was a gap exactly if fewer tokens are left than before.
          by_cases blank : gap = true
          · rw [if_pos blank, if_pos (shorter.mp blank)]
            refine (follows_readCompound follow there).bind ?_
            rintro ⟨compound, rest, less⟩ _ _ ⟨rfl, next⟩
            refine (induction compound _ next (by dsimp only; omega)).bind_right ?_
            rintro ⟨links, final, _⟩ _ _ ⟨rfl, last⟩
            exact .pure ⟨rfl, last⟩
          · rw [if_neg blank, if_neg (mt shorter.mpr blank)]
            exact follows_refuseHere opened there

omit follow in
/-- The combinator in front of a chain is read alike. -/
theorem exists_readAnchor (relative : Bool) (here : Token.At text position tokens) :
    ∃ final, Token.At text final (Selector.Parser.readAnchor relative tokens).2.val ∧
      Gets (readAnchor ⟨.ofText text, aliases, opened, checkedArgument⟩ relative) position
        (Selector.Parser.readAnchor relative tokens).1 final := by
  unfold readAnchor Selector.Parser.readAnchor
  cases relative with
  | false => exact ⟨position, here, .pure _⟩
  | true =>
      rcases readCombinator?_cases here with
        ⟨combinator, rest, _, signed, there, signs⟩ | ⟨unsigned, signs⟩
      · obtain ⟨final, _, there, skips, -⟩ := exists_skipBlank there
        simp only [signed]
        exact ⟨final, there, signs.step (skips.step (.pure _))⟩
      · obtain ⟨final, _, there, skips, -⟩ := exists_skipBlank here
        simp only [unsigned]
        exact ⟨final, there, signs.step (skips.step (.pure _))⟩

private theorem follows_readChain (relative : Bool)
    (here : Token.At text position tokens) :
    Follows (Arrives text) position
      (readChain ⟨.ofText text, aliases, opened, checkedArgument⟩ relative)
      (Selector.Parser.readChain ⟨aliases, opened, argument⟩ relative tokens) := by
  unfold Selector.Parser.readChain
  obtain ⟨_, there, anchors⟩ := exists_readAnchor relative here
  refine .step anchors ?_
  dsimp only
  refine (follows_readCompound follow there).bind ?_
  rintro ⟨first, rest, _⟩ _ _ ⟨rfl, there⟩
  refine (follows_readLinksWithin follow first [] there (length_le_rounds there)).bind ?_
  rintro ⟨⟨subject, left⟩, final, _⟩ _ _ ⟨rfl, there⟩
  exact .pure ⟨rfl, there⟩

private theorem follows_readChainsWithin {rounds : Nat} (relative : Bool)
    (here : Token.At text position tokens) (enough : tokens.length ≤ rounds) :
    Follows (Arrives text) position
      (readChainsWithin ⟨.ofText text, aliases, opened, checkedArgument⟩ relative rounds)
      (Selector.Parser.readChains ⟨aliases, opened, argument⟩ relative tokens) := by
  induction rounds generalizing position tokens with
  | zero => exact absurd enough (Nat.not_le.mpr here.length_pos)
  | succ rounds induction =>
      rw [Selector.Parser.readChains]
      have fits := (Selector.Parser.skipBlank tokens).property
      obtain ⟨_, _, there, skips, -⟩ := exists_skipBlank here
      refine .step skips ?_
      dsimp only
      refine (follows_readChain follow relative there).bind ?_
      rintro ⟨chain, rest, less⟩ _ _ ⟨rfl, there⟩
      have fitsRest := (Selector.Parser.skipBlank rest).property
      obtain ⟨_, _, there, skips, -⟩ := exists_skipBlank there
      refine .step skips ?_
      dsimp only
      rcases accept?_cases .comma (by simp) there with
        ⟨after, fewer, accepted, there, peeks, advances⟩ | ⟨found, peeks, other, accepted⟩
      · dsimp only at fewer
        simp only [accepted]
        refine .step peeks (.step advances ?_)
        refine (induction there (by omega)).bind ?_
        rintro ⟨more, final, _⟩ _ _ ⟨rfl, there⟩
        exact .pure ⟨rfl, there⟩
      · simp only [accepted]
        refine .step peeks ?_
        rw [if_neg other]
        exact .pure ⟨rfl, there⟩

end

/-! ## Arguments and whole texts -/

/-- Arguments are read alike on every level. -/
theorem follows_readArgument (aliases : AliasSource σ) (limit levels : Nat) :
    ArgumentsFollow text (readArgument (.ofText text) aliases limit levels)
      (Selector.Parser.readArgument aliases limit levels) := by
  induction levels with
  | zero => exact fun _ _ _ _ _ => .refuse _
  | succ levels induction =>
      intro opening relative position tokens here
      refine (follows_readChainsWithin induction relative here (length_le_rounds here)).bind ?_
      rintro ⟨selector, rest, _⟩ _ _ ⟨rfl, there⟩
      dsimp only
      rcases accept?_cases .rightParen (by simp) there with
        ⟨after, _, accepted, there, peeks, advances⟩ | ⟨found, peeks, other, accepted⟩
      · simp only [accepted]
        exact .step peeks (.step advances (.pure ⟨rfl, there⟩))
      · simp only [accepted]
        refine .step peeks ?_
        rw [if_neg other]
        exact follows_refuseHere _ there

theorem follows_readAll (aliases : AliasSource σ) (maxNesting : Nat)
    (here : Token.At text position tokens) :
    Follows (fun given value _ => given = value) position
      (readAll (.ofText text) aliases maxNesting)
      (Selector.Parser.readAll aliases maxNesting tokens) := by
  unfold Selector.Parser.readAll
  obtain ⟨_, _, there, skips, -⟩ := exists_skipBlank here
  refine .step skips (.step (gets_peek_head there) ?_)
  dsimp only
  split
  · exact .refuse _
  · refine (follows_readChainsWithin (follows_readArgument _ _ _) false there
      (length_le_rounds there)).bind ?_
    rintro ⟨selector, rest, _⟩ _ _ ⟨rfl, there⟩
    refine .step (gets_peek_head there) ?_
    dsimp only
    split
    · exact .pure rfl
    · exact follows_refuseHere none there

end CheckedReading

namespace Selector

variable {σ : Type} (aliases : AliasSource σ) (maxNesting : Nat) (text : String)

/-- Reading by positions gives what reading tokens gives, and refuses what it refuses. -/
theorem readChecked_eq :
    readChecked aliases maxNesting text =
      EStateM.adaptExcept .refused (read aliases maxNesting text) := by
  funext progress
  have agree := CheckedReading.follows_readAll aliases maxNesting (Token.at_scan text)
    progress
  simp only [readChecked, EStateM.adaptExcept, read]
  generalize Parser.readAll aliases maxNesting (Token.scan text) progress = first at agree
  generalize CheckedReading.readAll (.ofText text) aliases maxNesting ⟨0, progress⟩ = second
    at agree
  cases agree with
  | read same => rw [same]
  | refused => rfl

variable {aliases maxNesting text} in
theorem readChecked_error {halt : Halt} {progress final : Progress σ}
    (halted : readChecked aliases maxNesting text progress = .error halt final) :
    ∃ failure, halt = .refused failure := by
  rw [readChecked_eq, EStateM.adaptExcept] at halted
  split at halted
  · cases halted
    exact ⟨_, rfl⟩
  · cases halted

end Selector

/-- The tokens of a text tile it, and whatever the aliases and the limit, reading by
positions only looks at tokens and at characters that there are: it ends as reading the
tokens does, and neither out of bounds nor in an endless loop. -/
theorem Selector.read_within_bounds (text : String) :
    Token.Tiles text (Token.scan text) ∧
      ∀ {σ : Type} (aliases : AliasSource σ) (maxNesting : Nat),
        readChecked aliases maxNesting text =
            EStateM.adaptExcept .refused (read aliases maxNesting text) ∧
          ∀ progress final,
            readChecked aliases maxNesting text progress ≠ .error .outOfBounds final ∧
              readChecked aliases maxNesting text progress ≠ .error .endless final := by
  refine ⟨Token.tiles_scan text, fun aliases maxNesting =>
    ⟨readChecked_eq aliases maxNesting text, fun progress final => ⟨?_, ?_⟩⟩⟩
  · intro halted
    obtain ⟨_, impossible⟩ := readChecked_error halted
    cases impossible
  · intro halted
    obtain ⟨_, impossible⟩ := readChecked_error halted
    cases impossible

end TreeSelectors
