import Mathlib.Tactic.ByContra
import TreeSelectors.Proofs.Selector.BrokenReadings
import TreeSelectors.Proofs.Selector.BrokenTerms
import TreeSelectors.Proofs.Selector.Compounds
import TreeSelectors.Proofs.Selector.Parsing

/-!
# Selectors that break off

Readers of selectors go through the tokens in front of a break alike, whether the text
ends there or goes on with a broken text.  Only a list of chains may end at the break; it
does so where the text ends.
-/

namespace TreeSelectors

open Grammar Token

/-- No failure of the source is about a place in the text. -/
def AliasSource.Unlocated {σ : Type} (aliases : AliasSource σ) : Prop :=
  ∀ name known, Gives ParseError.Located (fun _ => True)
    ((aliases.expand name).run known)

namespace Selector.Parser

section

variable {σ : Type} {cut : Break} {opened body : List Token}

/-- What a reader is given is about the functions that are open, and goes through
arguments alike. -/
structure Context.Goes (cut : Break) (functions : List Token) (context : Context σ) :
    Prop where
  opened : context.opened = functions.head?.map Token.start
  aliases : context.aliases.Unlocated
  argument : ∀ colon function name, colon.kind = .colon →
    function.kind = .function name → ∀ relative body,
    cut.Goes false functions (colon :: function :: body)
      (context.argument function.start relative (body ++ [cut.stop]))
      (context.argument function.start relative (body ++ cut.bad :: cut.more))

/-! ## Pseudo-classes and pseudo-elements -/

private theorem pseudoElement_gives {colon second token : Token} {name : String}
    (colonKind : colon.kind = .colon) (secondKind : second.kind = .colon)
    (kind : token.kind = .ident name) (progress : Progress σ) :
    Gives ParseError.Located
      (fun result => Passes [colon, second, token] progress.remarks result.2.remarks)
      ((pseudoElement name).ends progress) :=
  .element colonKind secondKind kind

private theorem pseudoClass_gives {context : Context σ}
    (aliases : context.aliases.Unlocated)
    {colon token : Token} {name : String} (colonKind : colon.kind = .colon)
    (kind : token.kind = .ident name) (progress : Progress σ) :
    Gives ParseError.Located
      (fun result => Passes [colon, token] progress.remarks result.2.remarks)
      ((pseudoClass context name).ends progress) := by
  have passes : Passes [colon, token] progress.remarks _ := .ident colonKind kind
  unfold pseudoClass
  dsimp only
  split
  · rename_i plain isPlain
    simp only [Remark.ofPrefixed?, isPlain, Option.any_some] at passes
    split
    · rename_i acts
      rw [if_pos acts] at passes
      exact passes
    · rename_i idle
      have notLegacy : isLegacyPseudoElement (Text.foldCase name) = false := by
        by_contra legacy
        simp [ofName?_of_isLegacy (by simpa using legacy)] at isPlain
      simp only [if_neg idle, notLegacy, Bool.false_eq_true, if_false, Option.toList_none,
        List.append_nil] at passes
      exact passes
  · rename_i notPlain
    simp only [Remark.ofPrefixed?, notPlain, Option.any_none, Bool.false_eq_true,
      if_false] at passes
    split
    · rename_i legacy
      rw [if_pos legacy] at passes
      have folded := Text.foldCase_foldCase name
      simp only [pseudoElement, folded]
      exact passes
    · rename_i notLegacy
      rw [if_neg notLegacy] at passes
      split
      · exact id
      · rw [Reading.ends_bind, Reading.ends_expand, bind_assoc]
        refine (aliases (Text.foldCase name) progress.aliases).bind fun answer _ => ?_
        obtain ⟨found, later⟩ := answer
        cases found with
        | none => exact id
        | some selector =>
            rw [Option.toList_none, List.append_nil] at passes
            exact passes

private theorem pseudoFunction_goes {context : Context σ} (goes : context.Goes cut opened)
    {colon function : Token} {name : String} (colonKind : colon.kind = .colon)
    (kind : function.kind = .function name) :
    cut.Goes false opened (colon :: function :: body)
      (pseudoFunction context name function.start (body ++ [cut.stop]))
      (pseudoFunction context name function.start (body ++ cut.bad :: cut.more)) := by
  unfold pseudoFunction
  dsimp only
  split
  · rename_i selecting _
    exact (goes.argument colon function name colonKind kind _ body).map
      (.functional selecting) (fun _ _ _ => ⟨_, rfl⟩) fun _ _ _ => ⟨_, rfl⟩
  · split
    · rename_i counting _
      refine Break.Goes.map ?_ (Simple.nth counting) (fun _ _ _ => ⟨_, rfl⟩)
        fun _ _ _ => ⟨_, rfl⟩
      have colonFlat : colon.isFlat = true := by rw [isFlat, colonKind]
      refine Break.Goes.ofExcept [colon, function] readFormula_outcomes ?_ ?_
      · rintro _ ⟨rfl, flat⟩
        have inside : unclosedFrom opened ([colon, function] ++ body) =
            function :: opened := by
          rw [List.cons_append, unclosedFrom_of_isFlat colonFlat, List.singleton_append,
            unclosedFrom_function kind]
          exact flat.closes _
        exact .argument inside
      · rintro _ before ⟨parts, close, rfl, flat, closes⟩
        exact .function colonKind kind (.argument kind (.of_flat flat) closes)
    · split
      · exact .throw id
      · exact .throw id

private theorem readPseudo_goes {context : Context σ} (goes : context.Goes cut opened)
    {colon : Token} (colonKind : colon.kind = .colon) :
    cut.Goes false opened (colon :: body) (readPseudo context (body ++ [cut.stop]))
      (readPseudo context (body ++ cut.bad :: cut.more)) := by
  have closes : Closes [colon] := closes_of_isFlat (by simp [isFlat, colonKind])
  cases body with
  | nil =>
      simp only [List.nil_append, readPseudo, cut.stops, cut.breaks, goes.opened]
      exact .stuck closes
  | cons token rest =>
      rw [List.cons_append, List.cons_append, readPseudo, readPseudo, goes.opened]
      split
      · rename_i secondKind
        rcases readIdent?_cases cut rest with
          ⟨whole, broken⟩ | ⟨ident, rest, name, _, _, rfl, kind, whole, broken⟩
        · rw [whole, broken]
          have closes : Closes [colon, token] :=
            closes_of_isFlat (by simp [isFlat, colonKind, secondKind])
          exact .stuck closes
        · rw [whole, broken]
          exact .of_gives (pseudoElement_gives colonKind secondKind kind)
      · rename_i name kind
        exact .of_gives (pseudoClass_gives goes.aliases colonKind kind)
      · rename_i name kind
        exact (pseudoFunction_goes goes colonKind kind).map id (fun _ _ _ => ⟨_, rfl⟩)
          fun _ _ _ => ⟨_, rfl⟩
      · exact .stuck closes

/-! ## Compounds -/

private theorem readCondition?_offers {context : Context σ}
    (goes : context.Goes cut opened)
    (token : Token) :
    cut.Offers opened (token :: body) (readCondition? context token (body ++ [cut.stop]))
      (readCondition? context token (body ++ cut.bad :: cut.more)) := by
  unfold readCondition?
  rw [goes.opened]
  split
  · rename_i name kind
    split
    · exact .stuck
    · exact .single (by simp [isFlat, kind])
  · rename_i kind
    have flat : Flat [token] := by simp [isFlat, kind]
    refine Break.Goes.offers ?_ id (fun _ _ _ => ⟨_, rfl⟩) fun _ _ _ => ⟨_, rfl⟩
    refine Break.Goes.ofExcept [token] readClassName_outcomes ?_ ?_
    · rintro _ ⟨rfl, rfl⟩
      have lacks : Lacks opened [token] _ := .atEnd
      rwa [flat.closes opened] at lacks
    · intro segment before inner
      exact .of_flat (flat_append_iff.mpr ⟨flat, inner⟩)
  · rename_i kind
    have flat : Flat [token] := by simp [isFlat, kind]
    refine Break.Goes.offers ?_ Simple.attribute (fun _ _ _ => ⟨_, rfl⟩)
      fun _ _ _ => ⟨_, rfl⟩
    refine Break.Goes.ofExcept [token] readAttribute_inside ?_ ?_
    · rintro _ ⟨rfl, inner⟩
      have lacks : Lacks opened ([] ++ token :: body) _ := .bracket kind inner.2
      exact lacks
    · intro segment before inner
      exact .of_flat (flat_append_iff.mpr ⟨flat, inner⟩)
  · rename_i kind
    exact (readPseudo_goes goes kind).offers id (fun _ _ _ => ⟨_, rfl⟩)
      fun _ _ _ => ⟨_, rfl⟩
  · exact .nothing

private theorem readFirst?_offers {context : Context σ} (goes : context.Goes cut opened)
    (token : Token) :
    cut.Offers opened (token :: body) (readFirst? context token (body ++ [cut.stop]))
      (readFirst? context token (body ++ cut.bad :: cut.more)) := by
  unfold readFirst?
  rw [goes.opened]
  split
  · rename_i name kind
    split
    · exact .stuck
    · exact .single (by simp [isFlat, kind])
  · rename_i kind
    exact .single (by simp [isFlat, kind])
  · exact readCondition?_offers goes token

private theorem readFirst?_bad {context : Context σ} (cut : Break) :
    readFirst? context cut.bad cut.more = pure none := by
  simp only [readFirst?, readCondition?, cut.breaks]

private theorem readConditions_goes {context : Context σ} (goes : context.Goes cut opened)
    (body : List Token) :
    cut.Goes false opened body (readConditions context (body ++ [cut.stop]))
      (readConditions context (body ++ cut.bad :: cut.more)) := by
  -- Each condition leaves fewer tokens for those after it.
  induction body using (measure List.length).wf.induction with
  | _ body induction =>
  cases body with
  | nil =>
      have ended : readCondition? context cut.stop [] = pure none := by
        simp only [readCondition?, cut.stops]
      have broken : readCondition? context cut.bad cut.more = pure none := by
        simp only [readCondition?, cut.breaks]
      rw [List.nil_append, List.nil_append, readConditions, readConditions, ended, broken,
        pure_bind, pure_bind]
      exact .rest []
  | cons token rest =>
      rw [List.cons_append, List.cons_append, readConditions, readConditions]
      refine (readCondition?_offers goes token).bind (.rest []) ?_
      intro simple segment remaining shorter _ _
      have nearer : remaining.length < (token :: rest).length := by
        simp only [List.length_append, List.length_cons, List.length_nil] at shorter ⊢
        omega
      exact (induction remaining nearer).map (simple :: ·) (fun _ _ _ => ⟨_, rfl⟩)
        fun _ _ _ => ⟨_, rfl⟩

private theorem readCompound_goes {context : Context σ} (goes : context.Goes cut opened)
    (body : List Token) :
    cut.Goes false opened body (readCompound context (body ++ [cut.stop]))
      (readCompound context (body ++ cut.bad :: cut.more)) := by
  have closes : Closes [] := flat_nil.closes
  cases body with
  | nil =>
      have ended : readFirst? context cut.stop [] = pure none := by
        simp only [readFirst?, readCondition?, cut.stops]
      rw [List.nil_append, List.nil_append, readCompound, readCompound, ended,
        readFirst?_bad, pure_bind, pure_bind, goes.opened]
      exact .stuck closes
  | cons token rest =>
      rw [List.cons_append, List.cons_append, readCompound, readCompound, goes.opened]
      refine (readFirst?_offers goes token).bind (.stuck closes) ?_
      intro simple _ remaining _ _ _
      exact (readConditions_goes goes remaining).map (simple :: ·)
        (fun _ _ _ => ⟨_, rfl⟩) fun _ _ _ => ⟨_, rfl⟩

private theorem readCompound_bad {context : Context σ} (cut : Break)
    (progress : Progress σ) :
    (readCompound context (cut.bad :: cut.more)).ends progress =
      .error (.refusing cut.bad) := by
  rw [readCompound, readFirst?_bad, pure_bind, Reading.ends_throw, cut.atToken_bad]

/-! ## Chains and lists -/

/-- A combinator is read alike in front of the end and of a broken text. -/
theorem readCombinator?_cases (cut : Break) (body : List Token) :
    (readCombinator? (body ++ [cut.stop]) = none ∧
      readCombinator? (body ++ cut.bad :: cut.more) = none) ∨
    ∃ token rest combinator fewer fewerOther, body = token :: rest ∧
      Sign token combinator ∧
      readCombinator? (body ++ [cut.stop]) =
        some (combinator, ⟨rest ++ [cut.stop], fewer⟩) ∧
      readCombinator? (body ++ cut.bad :: cut.more) =
        some (combinator, ⟨rest ++ cut.bad :: cut.more, fewerOther⟩) := by
  cases body with
  | nil =>
      left
      simp [readCombinator?]
  | cons token rest =>
      by_cases signed : ∃ combinator, Sign token combinator
      · right
        obtain ⟨combinator, sign⟩ := signed
        refine ⟨token, rest, combinator, ?_, ?_, rfl, sign, ?_, ?_⟩
        · simp
        · simp
        · exact readCombinator?_eq_some_iff.mpr ⟨token, rfl, sign⟩
        · exact readCombinator?_eq_some_iff.mpr ⟨token, rfl, sign⟩
      · left
        simpa [readCombinator?_eq_none_iff] using signed

private theorem readLinks_goes {context : Context σ} (goes : context.Goes cut opened)
    (subject : Compound) (left : List (Combinator × Compound)) (body : List Token) :
    cut.Goes true opened body (readLinks context subject left (body ++ [cut.stop]))
      (readLinks context subject left (body ++ cut.bad :: cut.more)) := by
  -- Each link leaves fewer tokens for those after it.
  induction body using (measure List.length).wf.induction generalizing subject left with
  | _ body induction =>
  obtain ⟨blank, start, _, _, rfl, isBlank, skipped, skippedBroken⟩ :=
    exists_skipBlank cut body
  rw [readLinks, readLinks, skipped, skippedBroken, goes.opened]
  dsimp only
  refine Break.Goes.flat_behind ?_ isBlank.flat
  rcases readCombinator?_cases cut start with
    ⟨whole, broken⟩ | ⟨token, afterSign, combinator, _, _, rfl, sign, whole, broken⟩
  · rw [whole, broken]
    dsimp only
    cases start with
    | nil =>
        have ended : endsChain ([] ++ [cut.stop]) = true := by
          simp [endsChain, Token.peek]
        have broken : ¬ endsChain ([] ++ cut.bad :: cut.more) = true := by
          simp [endsChain, Token.peek]
        -- Behind white space the broken text would be another compound, and without any
        -- it cannot stand there at all.
        rw [if_pos ended, if_neg broken]
        refine .arrives (subject, left) fun progress => ?_
        split
        · have refused : (readCompound context ([] ++ cut.bad :: cut.more)).ends progress =
              .error (.refusing cut.bad) := readCompound_bad cut progress
          rw [Reading.ends_bind, refused]
          rfl
        · rw [List.nil_append, Reading.ends_throw, cut.atToken_bad]
    | cons token rest =>
        have same : endsChain (token :: rest ++ [cut.stop]) =
            endsChain (token :: rest ++ cut.bad :: cut.more) := rfl
        rw [same]
        split
        · exact .rest _
        · have shorter (tail : List Token) :
              (token :: rest ++ tail).length < (blank ++ token :: rest ++ tail).length ↔
                0 < blank.length := by
            simp only [List.length_append]
            omega
          simp only [shorter]
          split
          · refine (readCompound_goes goes (token :: rest)).bind ?_
            intro compound segment remaining _ _ split
            have nearer : remaining.length < (blank ++ token :: rest).length := by
              simp only [split, List.length_append]
              omega
            exact (induction remaining nearer compound ((.descendant, subject) :: left)).map
              id (fun _ _ _ => ⟨_, rfl⟩) fun _ _ _ => ⟨_, rfl⟩
          · exact .stuck flat_nil.closes
  · rw [whole, broken]
    obtain ⟨gap, next, _, _, rfl, isGap, skippedNext, skippedNextBroken⟩ :=
      exists_skipBlank cut afterSign
    dsimp only
    rw [skippedNext, skippedNextBroken]
    dsimp only
    have flat : Flat (token :: gap) := flat_append_iff.mpr ⟨sign.flat, isGap.flat⟩
    change cut.Goes true opened (token :: gap ++ next) _ _
    refine Break.Goes.flat_behind ?_ flat
    refine (readCompound_goes goes next).bind ?_
    intro compound segment remaining _ _ split
    have nearer : remaining.length < (blank ++ token :: (gap ++ next)).length := by
      simp only [split, List.length_append, List.length_cons]
      omega
    exact (induction remaining nearer compound ((combinator, subject) :: left)).map id
      (fun _ _ _ => ⟨_, rfl⟩) fun _ _ _ => ⟨_, rfl⟩

/-- What stands in front of a chain is read alike in front of the end and of a broken
text. -/
theorem exists_readAnchor (cut : Break) (relative : Bool) (body : List Token) :
    ∃ front remaining anchor fits fitsOther, body = front ++ remaining ∧ Flat front ∧
      readAnchor relative (body ++ [cut.stop]) =
        (anchor, ⟨remaining ++ [cut.stop], fits⟩) ∧
      readAnchor relative (body ++ cut.bad :: cut.more) =
        (anchor, ⟨remaining ++ cut.bad :: cut.more, fitsOther⟩) := by
  cases relative with
  | false => exact ⟨[], body, _, _, _, rfl, flat_nil, rfl, rfl⟩
  | true =>
      simp only [readAnchor, if_true]
      rcases readCombinator?_cases cut body with
        ⟨whole, broken⟩ | ⟨token, rest, combinator, fewer, fewerOther, rfl, sign, whole,
          broken⟩
      · obtain ⟨blank, remaining, fits, fitsOther, rfl, isBlank, skipped, skippedBroken⟩ :=
          exists_skipBlank cut body
        rw [whole, broken, skipped, skippedBroken]
        exact ⟨blank, remaining, _, fits, fitsOther, rfl, isBlank.flat, rfl, rfl⟩
      · obtain ⟨blank, remaining, fits, fitsOther, rfl, isBlank, skipped, skippedBroken⟩ :=
          exists_skipBlank cut rest
        rw [whole, broken]
        dsimp only
        rw [skipped, skippedBroken]
        have flat : Flat (token :: blank) := flat_append_iff.mpr ⟨sign.flat, isBlank.flat⟩
        exact ⟨token :: blank, remaining, _, Nat.le_of_lt (Nat.lt_of_le_of_lt fits fewer),
          Nat.le_of_lt (Nat.lt_of_le_of_lt fitsOther fewerOther), rfl, flat, rfl, rfl⟩

private theorem readChain_goes {context : Context σ} (goes : context.Goes cut opened)
    (relative : Bool) (body : List Token) :
    cut.Goes true opened body (readChain context relative (body ++ [cut.stop]))
      (readChain context relative (body ++ cut.bad :: cut.more)) := by
  obtain ⟨front, start, anchor, _, _, rfl, flat, anchored, anchoredBroken⟩ :=
    exists_readAnchor cut relative body
  unfold readChain
  rw [anchored, anchoredBroken]
  refine Break.Goes.flat_behind ?_ flat
  refine (readCompound_goes goes start).bind ?_
  intro first _ remaining _ _ _
  exact (readLinks_goes goes first [] remaining).map
    (fun links => ⟨links.1, links.2, anchor⟩) (fun _ _ _ => ⟨_, rfl⟩)
    fun _ _ _ => ⟨_, rfl⟩

private theorem readChains_goes {context : Context σ} (goes : context.Goes cut opened)
    (relative : Bool) (body : List Token) :
    cut.Goes true opened body (readChains context relative (body ++ [cut.stop]))
      (readChains context relative (body ++ cut.bad :: cut.more)) := by
  -- Each chain leaves fewer tokens for those after it.
  induction body using (measure List.length).wf.induction with
  | _ body induction =>
  obtain ⟨blank, start, _, _, rfl, isBlank, skipped, skippedBroken⟩ :=
    exists_skipBlank cut body
  rw [readChains, readChains, skipped, skippedBroken]
  dsimp only
  refine Break.Goes.flat_behind ?_ isBlank.flat
  refine (readChain_goes goes relative start).bind_ends ?_ ?_
  · intro chain segment rest _ _ split
    obtain ⟨gap, next, _, _, rfl, isGap, skippedNext, skippedNextBroken⟩ :=
      exists_skipBlank cut rest
    dsimp only
    rw [skippedNext, skippedNextBroken]
    dsimp only
    refine Break.Goes.flat_behind ?_ isGap.flat
    rcases accept?_cases .comma (by simp) (by simp) cut next with
      ⟨whole, broken⟩ | ⟨comma, afterComma, _, _, rfl, kind, whole, broken⟩
    · rw [whole, broken]
      exact .rest _
    · rw [whole, broken]
      have flat : Flat [comma] := by simp [isFlat, kind]
      have nearer : afterComma.length < (blank ++ start).length := by
        simp only [split, List.length_append, List.length_cons]
        omega
      change cut.Goes true opened ([comma] ++ afterComma) _ _
      exact ((induction afterComma nearer).map (chain :: ·) (fun _ _ _ => ⟨_, rfl⟩)
        fun _ _ _ => ⟨_, rfl⟩).flat_behind flat
  · refine fun _ => ⟨rfl, fun chain fits => ?_⟩
    have skippedStop : skipBlank [cut.stop] = ⟨[cut.stop], Nat.le_refl _⟩ :=
      skipBlank_eq_iff.mpr ⟨[], blank_nil, rfl, by simp [Token.peek]⟩
    have noComma : accept? .comma [cut.stop] = none := by
      simp [accept?]
    dsimp only
    rw [skippedStop]
    dsimp only
    rw [noComma]
    exact ⟨_, _, rfl⟩

/-! ## Arguments and whole texts -/

theorem readArgument_goes {aliases : AliasSource σ} (unlocated : aliases.Unlocated)
    (limit levels : Nat) (opened : List Token) {colon function : Token} {name : String}
    (colonKind : colon.kind = .colon) (kind : function.kind = .function name)
    (relative : Bool) (body : List Token) :
    cut.Goes false opened (colon :: function :: body)
      (readArgument aliases limit levels function.start relative (body ++ [cut.stop]))
      (readArgument aliases limit levels function.start relative
        (body ++ cut.bad :: cut.more)) := by
  induction levels generalizing opened colon function name relative body with
  | zero => exact .throw id
  | succ levels induction =>
      have goes : Context.Goes cut (function :: opened)
          ⟨aliases, some function.start, readArgument aliases limit levels⟩ :=
        ⟨rfl, unlocated, fun _ _ _ => induction (function :: opened)⟩
      have colonFlat : colon.isFlat = true := by rw [isFlat, colonKind]
      have inside : unclosedFrom opened [colon, function] = function :: opened := by
        rw [unclosedFrom_of_isFlat colonFlat, unclosedFrom_function kind]
        rfl
      intro goesOn progress
      -- Inside the argument the function is the innermost open bracket; whatever the list
      -- lacks there, the text from the colon on lacks with the brackets open before it.
      have outer (failure : ParseError) (lacks : Lacks (function :: opened) body failure) :
          Lacks opened (colon :: function :: body) failure := by
        rw [← inside] at lacks
        exact lacks.append
      have listed := readChains_goes goes relative body goesOn.tail.tail progress
      rw [readArgument_succ, readArgument_succ, Reading.ends_bind, Reading.ends_bind]
      refine Break.Outcomes.bind (listed.mono outer (fun _ faults => faults.cons.cons)
        (fun _ => id) fun _ _ => id) ?_ ?_
      · rintro _ _ ⟨rfl, passes⟩
        rename_i segment remaining _ final _ _
        dsimp only
        rcases accept?_cases .rightParen (by simp) (by simp) cut remaining with
          ⟨whole, broken⟩ | ⟨close, rest, _, _, rfl, closes, whole, broken⟩
        · rw [whole, broken]
          exact (Break.Outcomes.stuck passes.closes goesOn.tail.tail).mono outer
            (fun _ faults => faults.cons.cons) (fun _ => id) fun _ _ => id
        · rw [whole, broken]
          have split : colon :: function :: (segment ++ close :: rest) =
              colon :: function :: (segment ++ [close]) ++ rest := by
            simp
          exact .read (.intro split
            (.function colonKind kind (.argument kind passes closes)))
      · rintro _ ⟨-, ⟨passes⟩⟩
        have notClosed : accept? .rightParen [cut.stop] = none := by
          simp [accept?]
        have lacks : Lacks (function :: opened) body _ := .atEnd
        rw [passes.closes (function :: opened)] at lacks
        dsimp only
        rw [notClosed]
        dsimp only
        rw [Reading.ends_throw, cut.atToken_stop]
        exact .lacking (outer _ lacks)

private theorem readChains_bad {context : Context σ} (cut : Break)
    (progress : Progress σ) :
    (readChains context false (cut.bad :: cut.more)).ends progress =
      .error (.refusing cut.bad) := by
  have skipped : skipBlank (cut.bad :: cut.more) = ⟨cut.bad :: cut.more, Nat.le_refl _⟩ :=
    skipBlank_eq_iff.mpr ⟨[], blank_nil, rfl, peek_bad_ne cut⟩
  have chained : (readChain context false (cut.bad :: cut.more)).ends progress =
      .error (.refusing cut.bad) := by
    have anchored : readAnchor false (cut.bad :: cut.more) =
        (none, ⟨cut.bad :: cut.more, Nat.le_refl _⟩) := rfl
    rw [readChain, anchored]
    dsimp only
    rw [Reading.ends_bind, readCompound_bad]
    rfl
  rw [readChains, skipped]
  dsimp only
  rw [Reading.ends_bind, chained]
  rfl

/-- Behind a list that was read, nothing but the end may stand. -/
theorem end_outcomes {segment remaining : List Token} {before progress : Progress σ}
    (passes : Passes segment before.remarks progress.remarks)
    (goesOn : GoesOn (segment ++ remaining)) (selector : Selector) :
    cut.Outcomes (Lacks [] (segment ++ remaining)) (Faults (segment ++ remaining))
      (fun result => Passes (segment ++ remaining) before.remarks result.2.remarks)
      (fun _ _ => False)
      ((if Token.peek (remaining ++ [cut.stop]) = .endOfInput then pure selector
        else throw (ParseError.atToken none (remaining ++ [cut.stop])) :
        Reading σ Selector).ends progress)
      ((if Token.peek (remaining ++ cut.bad :: cut.more) = .endOfInput then pure selector
        else throw (ParseError.atToken none (remaining ++ cut.bad :: cut.more)) :
        Reading σ Selector).ends progress) := by
  cases remaining with
  | nil =>
      rw [List.nil_append, List.nil_append, if_pos cut.peek_stop, if_neg cut.peek_bad,
        Reading.ends_pure, Reading.ends_throw, cut.atToken_bad, List.append_nil]
      exact .arrived passes
  | cons next others =>
      have starts := goesOn.behind next List.mem_cons_self
      have wholeStarts : Token.peek (next :: others ++ [cut.stop]) ≠ .endOfInput := starts
      have brokenStarts : Token.peek (next :: others ++ cut.bad :: cut.more) ≠
          .endOfInput := starts
      rw [if_neg wholeStarts, if_neg brokenStarts]
      exact .stuck passes.closes goesOn

/-- A text that is broken off reads like the whole text up to there. -/
theorem readAll_outcomes {aliases : AliasSource σ} (unlocated : aliases.Unlocated)
    (cut : Break) (maxNesting : Nat) (goesOn : GoesOn body) (progress : Progress σ) :
    cut.Outcomes (fun failure => failure = .empty ∨ Lacks [] body failure) (Faults body)
      (fun result => Passes body progress.remarks result.2.remarks) (fun _ _ => False)
      ((readAll aliases maxNesting (body ++ [cut.stop])).ends progress)
      ((readAll aliases maxNesting (body ++ cut.bad :: cut.more)).ends progress) := by
  have goes : Context.Goes cut []
      ⟨aliases, none, readArgument aliases maxNesting maxNesting⟩ :=
    ⟨rfl, unlocated, fun _ _ _ => readArgument_goes unlocated maxNesting maxNesting []⟩
  obtain ⟨blank, start, _, _, rfl, isBlank, skipped, skippedBroken⟩ :=
    exists_skipBlank cut body
  unfold readAll
  rw [skipped, skippedBroken]
  dsimp only
  cases start with
  | nil =>
      rw [List.nil_append, List.nil_append, if_pos cut.peek_stop, if_neg cut.peek_bad,
        Reading.ends_bind, Reading.ends_bind, readChains_bad, Reading.ends_throw]
      exact .lacking (.inl rfl)
  | cons token rest =>
      have starts := goesOn.behind token List.mem_cons_self
      have wholeStarts : Token.peek (token :: rest ++ [cut.stop]) ≠ .endOfInput := starts
      have brokenStarts : Token.peek (token :: rest ++ cut.bad :: cut.more) ≠ .endOfInput :=
        starts
      have listed := (readChains_goes goes false (token :: rest)).flat_behind isBlank.flat
        goesOn progress
      rw [if_neg wholeStarts, if_neg brokenStarts, Reading.ends_bind, Reading.ends_bind]
      refine (Break.Outcomes.bind listed ?_ ?_).mono (fun _ => .inr) (fun _ => id)
        (fun _ => id) fun _ _ => id
      · rintro _ _ ⟨split, passes⟩
        rw [split] at goesOn ⊢
        exact end_outcomes passes goesOn _
      · rintro _ ⟨-, ⟨passes⟩⟩
        dsimp only
        rw [if_pos cut.peek_stop]
        exact .arrived passes

end

end Selector.Parser

end TreeSelectors
