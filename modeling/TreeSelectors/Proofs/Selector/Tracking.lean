import TreeSelectors.Proofs.Answer
import TreeSelectors.Proofs.Selector.Parsing

/-!
# Reading with other aliases

A reader asks its source of aliases only for the names that the tokens call, and goes on
in the same way whatever selectors these stand for.  So two readers with different
sources go through a text side by side until the first one refuses to go on, because its
source does or because arguments nest too deep for it.  No failure but a refusal is about
a cycle of aliases.
-/

namespace TreeSelectors

def ParseError.IsCycle (failure : ParseError) : Prop :=
  ∃ chain, failure = .aliasCycle chain

namespace Reading

variable {σ τ α β γ δ : Type} {refusal : ParseError → Prop} {same : α → β → Prop}
  {alike : γ → δ → Prop}

/-- The first reading has refused, or both have failed alike, or both have read
something. -/
inductive Outcomes (refusal : ParseError → Prop) (same : α → β → Prop) :
    EStateM.Result ParseError (Progress σ) α →
      EStateM.Result ParseError (Progress τ) β → Prop where
  | refused {failure : ParseError} {final : Progress σ}
      {result : EStateM.Result ParseError (Progress τ) β} :
      refusal failure → Outcomes refusal same (.error failure final) result
  | failed {failure : ParseError} {final : Progress σ} {other : Progress τ} :
      ¬ failure.IsCycle →
      Outcomes refusal same (.error failure final) (.error failure other)
  | read {value : α} {result : β} {final : Progress σ} {other : Progress τ} :
      same value result → Outcomes refusal same (.ok value final) (.ok result other)

/-- Whatever was read before, the first reading ends like the second one, unless it
refuses. -/
def Tracks (refusal : ParseError → Prop) (same : α → β → Prop) (first : Reading σ α)
    (second : Reading τ β) : Prop :=
  ∀ progress other, Outcomes refusal same (first progress) (second other)

/-- The same tokens are left. -/
def SameRest {left : List Token → Prop} (first : α × { rest // left rest })
    (second : β × { rest // left rest }) : Prop :=
  first.2.val = second.2.val

namespace Tracks

theorem pure {value : α} {result : β} (agrees : same value result) :
    Tracks refusal same (Pure.pure value : Reading σ α) (Pure.pure result : Reading τ β) :=
  fun _ _ => .read agrees

theorem refuse {failure : ParseError} (refused : refusal failure)
    (second : Reading τ β) :
    Tracks refusal same (throw failure : Reading σ α) second :=
  fun _ _ => .refused refused

theorem throw {failure : ParseError} (own : ¬ failure.IsCycle) :
    Tracks refusal same (MonadExcept.throw failure : Reading σ α)
      (MonadExcept.throw failure : Reading τ β) :=
  fun _ _ => .failed own

theorem remark (note : Remark) :
    Tracks refusal Eq (Reading.remark note : Reading σ Unit)
      (Reading.remark note : Reading τ Unit) :=
  fun _ _ => .read rfl

theorem ofExcept {outcome : Except ParseError α}
    (own : Gives ParseError.IsCycle (fun _ => True) outcome) :
    Tracks refusal Eq (Reading.ofExcept outcome : Reading σ α)
      (Reading.ofExcept outcome : Reading τ α) := by
  cases outcome with
  | error failure => exact .throw own
  | ok value => exact .pure rfl

theorem bind {first : Reading σ α} {second : Reading τ β} {next : α → Reading σ γ}
    {other : β → Reading τ δ} (tracks : Tracks refusal same first second)
    (continues : ∀ value result, same value result →
      (∃ remarks known later, Yields first remarks known value later) →
      Tracks refusal alike (next value) (other result)) :
    Tracks refusal alike (first >>= next) (second >>= other) := by
  intro progress state
  have outcomes := tracks progress state
  simp only [Bind.bind, EStateM.bind]
  generalize ended : first progress = outcome at outcomes
  generalize second state = result at outcomes
  cases outcomes with
  | refused refused => exact .refused refused
  | failed own => exact .failed own
  | read agrees =>
      exact continues _ _ agrees ⟨progress.remarks, progress.aliases, _, _, ended⟩ _ _

/-- Readings that leave the same tokens go on alike with what they have read. -/
theorem bind_rest {left : List Token → Prop}
    {first : Reading σ (α × { rest // left rest })}
    {second : Reading τ (β × { rest // left rest })}
    {next : α × { rest // left rest } → Reading σ γ}
    {other : β × { rest // left rest } → Reading τ δ}
    (tracks : Tracks refusal SameRest first second)
    (continues : ∀ value result rest fits,
      (∃ remarks known later,
        Yields first remarks known (value, ⟨rest, fits⟩) later) →
      Tracks refusal alike (next (value, ⟨rest, fits⟩)) (other (result, ⟨rest, fits⟩))) :
    Tracks refusal alike (first >>= next) (second >>= other) := by
  refine tracks.bind ?_
  rintro ⟨value, rest, fits⟩ ⟨result, _, _⟩ rfl yielded
  exact continues value result rest fits yielded

/-- A name is looked up alike if every failure of the first source is a refusal, and what
the first one knows, or does not know, so does the second one. -/
theorem expand {strict : AliasSource σ} {loose : AliasSource τ} {name : String}
    (refuses : ∀ known failure, (strict.expand name).run known = .error failure →
      refusal failure)
    (answers : ∀ known state found later,
      (strict.expand name).run known = .ok (found, later) →
      ∃ other after, (loose.expand name).run state = .ok (other, after) ∧
        found.isSome = other.isSome) :
    Tracks refusal (fun found other => found.isSome = other.isSome)
      (Reading.expand strict name) (Reading.expand loose name) := by
  intro progress state
  unfold Reading.expand
  cases looked : (strict.expand name).run progress.aliases with
  | error failure => exact .refused (refuses _ _ looked)
  | ok answer =>
      obtain ⟨other, after, again, same⟩ := answers _ state.aliases _ _ looked
      rw [again]
      exact .read same

/-- The same after a computation that does not ask for aliases. -/
theorem ofExcept_bind {outcome : Except ParseError α} {next : α → Reading σ γ}
    {other : α → Reading τ δ} (own : Gives ParseError.IsCycle (fun _ => True) outcome)
    (continues : ∀ value, Tracks refusal alike (next value) (other value)) :
    Tracks refusal alike (Reading.ofExcept outcome >>= next)
      (Reading.ofExcept outcome >>= other) := by
  refine (Tracks.ofExcept own).bind ?_
  rintro value _ rfl -
  exact continues value

end Tracks

end Reading

/-! ## Failures of a reader of its own -/

namespace Selector.Parser

section

variable {tokens : List Token} {opened : Option Nat}

theorem not_isCycle_atToken (opened : Option Nat) (tokens : List Token) :
    ¬ (ParseError.atToken opened tokens).IsCycle := by
  rintro ⟨chain, same⟩
  unfold ParseError.atToken at same
  split at same
  · cases opened <;> cases same
  · split at same
    · cases opened <;> cases same
    · cases same
    · cases same

private theorem not_isCycle_bracketError (opened : Option Nat) (bracket : Nat)
    (tokens : List Token) : ¬ (bracketError opened bracket tokens).IsCycle := by
  unfold bracketError
  split
  · exact nofun
  · exact not_isCycle_atToken _ _

section

variable {failure : List Token → ParseError} (own : ∀ tokens, ¬ (failure tokens).IsCycle)

include own

private theorem readOperator_own :
    Gives ParseError.IsCycle (fun _ => True) (readOperator failure tokens) := by
  unfold readOperator
  split
  · exact own _
  · split
    · exact .pure trivial
    · split
      · exact own _
      · split
        · exact .pure trivial
        · exact own _
    · exact own _

private theorem readValue_own :
    Gives ParseError.IsCycle (fun _ => True) (readValue failure tokens) := by
  unfold readValue
  split
  · exact own _
  · split
    · exact .pure trivial
    · exact .pure trivial
    · exact own _

private theorem readComparison_own (name : String) :
    Gives ParseError.IsCycle (fun _ => True) (readComparison failure name tokens) := by
  unfold readComparison
  refine .bind (readOperator_own own) fun _ _ => ?_
  refine .bind (readValue_own own) fun _ _ => ?_
  dsimp only
  split
  · exact .pure trivial
  · exact own _

end

private theorem readAttribute_own (opened : Option Nat) (bracket : Nat) :
    Gives ParseError.IsCycle (fun _ => True) (readAttribute opened bracket tokens) := by
  have own := not_isCycle_bracketError opened bracket
  unfold readAttribute
  dsimp only
  split
  · split
    · exact .pure trivial
    · exact .bind (readComparison_own own _) fun _ _ => .pure trivial
  · exact own _

private theorem readFormulaText_own (opened : Option Nat) (opening : Nat) :
    Gives ParseError.IsCycle (fun _ => True)
      (readFormulaText opened opening tokens) := by
  have unclosed : ¬ (ParseError.unclosedParen opening).IsCycle := nofun
  induction tokens with
  | nil => exact unclosed
  | cons token rest induction =>
      unfold readFormulaText
      split
      · exact .pure trivial
      · split
        · exact .bind induction fun _ _ => .pure trivial
        · split
          · exact unclosed
          · exact not_isCycle_atToken _ _

private theorem readFormula_own (opened : Option Nat) (opening : Nat) :
    Gives ParseError.IsCycle (fun _ => True) (readFormula opened opening tokens) := by
  unfold readFormula
  refine .bind (readFormulaText_own opened opening) fun answer _ => ?_
  dsimp only
  cases Nth.parse answer.1 with
  | none => exact nofun
  | some formula => exact .pure trivial

private theorem readClassName_own :
    Gives ParseError.IsCycle (fun _ => True) (readClassName opened tokens) := by
  unfold readClassName
  split
  · exact not_isCycle_atToken _ _
  · split
    · exact .pure trivial
    · exact not_isCycle_atToken _ _

end

end Selector.Parser

/-! ## Two readers side by side -/

open Grammar Token

section

variable {σ τ : Type} {refusal : ParseError → Prop}

/-- The first source knows the aliases of the second one.  It expands the given names if
the second one does, but it may refuse to. -/
structure AliasSource.Tracks (refusal : ParseError → Prop) (strict : AliasSource σ)
    (loose : AliasSource τ) (names : List String) : Prop where
  isAlias : strict.isAlias = loose.isAlias
  expand : ∀ name ∈ names,
    Reading.Tracks refusal (fun found other => found.isSome = other.isSome)
      (Reading.expand strict name) (Reading.expand loose name)

namespace AliasSource.Tracks

variable {strict : AliasSource σ} {loose : AliasSource τ} {names fewer : List String}
  {segment rest : List Token}

theorem mono (tracks : strict.Tracks refusal loose names)
    (among : ∀ name ∈ fewer, name ∈ names) : strict.Tracks refusal loose fewer where
  isAlias := tracks.isAlias
  expand name member := tracks.expand name (among name member)

/-- The names that are called behind a segment are called by the whole. -/
theorem behind (tracks : strict.Tracks refusal loose (called (segment ++ rest)))
    (calls : Grammar.Calls segment names) :
    strict.Tracks refusal loose (called rest) :=
  tracks.mono fun name member => by
    rw [calls rest]
    exact List.mem_append_right _ member

end AliasSource.Tracks

namespace Selector.Parser

/-- What the two contexts have to read with goes side by side. -/
structure Context.Tracks (refusal : ParseError → Prop) (levels : Nat)
    (strict : Context σ) (loose : Context τ) : Prop where
  opened : strict.opened = loose.opened
  reads : strict.Reads (.upTo strict.aliases levels)
  argument (opening : Nat) (relative : Bool) (tokens : List Token) :
    strict.aliases.Tracks refusal loose.aliases (called tokens) →
    Reading.Tracks refusal Reading.SameRest (strict.argument opening relative tokens)
      (loose.argument opening relative tokens)

/-- Only white space and signs stand in front of the first compound of a chain. -/
theorem flat_of_readAnchor {relative : Bool} {anchor : Option Combinator}
    {tokens start : List Token} {fits : start.length ≤ tokens.length}
    (anchored : readAnchor relative tokens = (anchor, ⟨start, fits⟩)) :
    ∃ segment, tokens = segment ++ start ∧ Flat segment := by
  cases relative with
  | false =>
      cases anchored
      exact ⟨[], rfl, flat_nil⟩
  | true =>
      simp only [readAnchor, if_true] at anchored
      split at anchored
      · rename_i combinator after _ signed
        obtain ⟨sign, rfl, isSign⟩ := readCombinator?_eq_some_iff.mp signed
        generalize skipped : skipBlank after = left at anchored
        obtain ⟨left, leftFits⟩ := left
        cases anchored
        obtain ⟨blank, isBlank, rfl, -⟩ := skipBlank_eq_iff.mp skipped
        exact ⟨sign :: blank, rfl, flat_append_iff.mpr ⟨isSign.flat, isBlank.flat⟩⟩
      · simp only [Prod.mk.injEq] at anchored
        obtain ⟨blank, isBlank, whole, -⟩ := skipBlank_eq_iff.mp anchored.2
        exact ⟨blank, whole, isBlank.flat⟩

namespace Context.Tracks

variable {levels : Nat} {strict : Context σ} {loose : Context τ} {tokens : List Token}
  (tracks : Context.Tracks refusal levels strict loose)

include tracks

omit tracks in
theorem pseudoClass (name : String)
    (aliases : strict.aliases.Tracks refusal loose.aliases
      ([Text.foldCase name].filter mayAbbreviate)) :
    Reading.Tracks refusal (fun _ _ => True) (pseudoClass strict name)
      (pseudoClass loose name) := by
  unfold Parser.pseudoClass
  dsimp only
  split
  · split
    · exact (Reading.Tracks.remark _).bind fun _ _ _ _ => .pure trivial
    · exact .pure trivial
  · rename_i notPlain
    split
    · exact (Reading.Tracks.remark _).bind fun _ _ _ _ => .pure trivial
    · rename_i notLegacy
      split
      · exact .throw nofun
      · have unknown : ¬ (ParseError.unknownPseudoClass (Text.foldCase name)).IsCycle := by
          rintro ⟨_, ⟨⟩⟩
        have isCalled : Text.foldCase name ∈ [Text.foldCase name].filter mayAbbreviate := by
          simp [mayAbbreviate, notPlain, notLegacy]
        refine (aliases.expand _ isCalled).bind fun found other same _ => ?_
        cases found with
        | none =>
            cases other with
            | none => exact .throw unknown
            | some _ => cases same
        | some _ =>
            cases other with
            | none => cases same
            | some _ => exact .pure trivial

theorem pseudoFunction (name : String) (opening : Nat)
    (aliases : strict.aliases.Tracks refusal loose.aliases (called tokens)) :
    Reading.Tracks refusal Reading.SameRest (pseudoFunction strict name opening tokens)
      (pseudoFunction loose name opening tokens) := by
  unfold Parser.pseudoFunction
  dsimp only
  split
  · exact (tracks.argument _ _ _ aliases).bind_rest fun _ _ _ _ _ => .pure rfl
  · rw [tracks.opened, aliases.isAlias]
    split
    · exact .ofExcept_bind (readFormula_own _ _) fun _ => .pure rfl
    · split
      · exact .throw nofun
      · exact .throw nofun

theorem readPseudo {colon : Token} (kind : colon.kind = .colon)
    (aliases : strict.aliases.Tracks refusal loose.aliases (called (colon :: tokens))) :
    Reading.Tracks refusal Reading.SameRest (readPseudo strict tokens)
      (readPseudo loose tokens) := by
  cases tokens with
  | nil =>
      rw [Parser.readPseudo, Parser.readPseudo, tracks.opened]
      exact .throw (not_isCycle_atToken _ _)
  | cons token rest =>
      unfold Parser.readPseudo
      rw [tracks.opened]
      dsimp only
      split
      · split
        · exact ((Reading.Tracks.remark _).bind fun _ _ _ _ => .pure rfl).bind
            fun _ _ _ _ => .pure rfl
        · exact .throw (not_isCycle_atToken _ _)
      · rename_i name ident
        rw [called_ident kind ident] at aliases
        refine (pseudoClass name (aliases.mono ?_)).bind fun _ _ _ _ => .pure rfl
        exact fun other => List.mem_append_left _
      · rename_i name function
        rw [called_of_not_ident kind (by simp [function])] at aliases
        exact (tracks.pseudoFunction name _ aliases).bind_rest fun _ _ _ _ _ => .pure rfl
      · exact .throw (not_isCycle_atToken _ _)

theorem readCondition? (token : Token) (rest : List Token)
    (aliases : strict.aliases.Tracks refusal loose.aliases (called (token :: rest))) :
    Reading.Tracks refusal (Option.Rel Reading.SameRest)
      (readCondition? strict token rest) (readCondition? loose token rest) := by
  unfold Parser.readCondition?
  rw [tracks.opened]
  dsimp only
  split
  · split
    · exact .throw (not_isCycle_atToken _ _)
    · exact .pure (.some rfl)
  · exact .ofExcept_bind readClassName_own fun _ => .pure (.some rfl)
  · exact .ofExcept_bind (readAttribute_own _ _) fun _ => .pure (.some rfl)
  · rename_i kind
    exact (tracks.readPseudo kind aliases).bind_rest fun _ _ _ _ _ => .pure (.some rfl)
  · exact .pure .none

theorem readFirst? (token : Token) (rest : List Token)
    (aliases : strict.aliases.Tracks refusal loose.aliases (called (token :: rest))) :
    Reading.Tracks refusal (Option.Rel Reading.SameRest)
      (readFirst? strict token rest) (readFirst? loose token rest) := by
  unfold Parser.readFirst?
  rw [tracks.opened]
  split
  · split
    · exact .throw (not_isCycle_atToken _ _)
    · exact .pure (.some rfl)
  · exact .pure (.some rfl)
  · exact tracks.readCondition? _ _ aliases

theorem readConditions (tokens : List Token)
    (aliases : strict.aliases.Tracks refusal loose.aliases (called tokens)) :
    Reading.Tracks refusal Reading.SameRest (readConditions strict tokens)
      (readConditions loose tokens) := by
  -- Each condition leaves fewer tokens for those after it.
  induction tokens using (measure List.length).wf.induction with
  | _ tokens induction =>
  cases tokens with
  | nil =>
      rw [Parser.readConditions, Parser.readConditions]
      exact .pure rfl
  | cons token others =>
      rw [Parser.readConditions, Parser.readConditions]
      refine (tracks.readCondition? token others aliases).bind
        fun found other same yielded => ?_
      cases same with
      | none => exact .pure rfl
      | @some first second same =>
          obtain ⟨simple, after, shorter⟩ := first
          obtain ⟨_, _, _⟩ := second
          obtain rfl := same
          obtain ⟨_, _, _, answered⟩ := yielded
          obtain ⟨segment, rfl, derived⟩ :=
            readCondition?_sound tracks.reads answered
          obtain ⟨_, _, measures⟩ :=
            derived.within composes_true (argumentsNest composes_true _ _)
          exact (induction after (Nat.lt_succ_of_le shorter)
            (AliasSource.Tracks.behind aliases measures.calls)).bind_rest
              fun _ _ _ _ _ => .pure rfl

theorem readCompound (tokens : List Token)
    (aliases : strict.aliases.Tracks refusal loose.aliases (called tokens)) :
    Reading.Tracks refusal Reading.SameRest (readCompound strict tokens)
      (readCompound loose tokens) := by
  unfold Parser.readCompound
  rw [tracks.opened]
  split
  · exact .throw (not_isCycle_atToken _ _)
  · refine (tracks.readFirst? _ _ aliases).bind fun found other same yielded => ?_
    cases same with
    | none => exact .throw (not_isCycle_atToken _ _)
    | @some first second same =>
        obtain ⟨simple, after, shorter⟩ := first
        obtain ⟨_, _, _⟩ := second
        obtain rfl := same
        obtain ⟨_, _, _, answered⟩ := yielded
        obtain ⟨segment, rfl, derived⟩ := readFirst?_sound tracks.reads answered
        obtain ⟨_, _, measures⟩ :=
          derived.within composes_true (argumentsNest composes_true _ _)
        exact (tracks.readConditions after
          (AliasSource.Tracks.behind aliases measures.calls)).bind_rest
            fun _ _ _ _ _ => .pure rfl

/-- The names behind a compound that was read. -/
theorem behind_compound {start rest : List Token} {fewer : rest.length < start.length}
    {compound : Compound}
    (aliases : strict.aliases.Tracks refusal loose.aliases (called start))
    (yielded : ∃ remarks known later,
      Reading.Yields (Parser.readCompound strict start) remarks known
        (compound, ⟨rest, fewer⟩) later) :
    strict.aliases.Tracks refusal loose.aliases (called rest) := by
  obtain ⟨_, _, _, answered⟩ := yielded
  obtain ⟨segment, rfl, derived, -⟩ := readCompound_sound tracks.reads answered
  obtain ⟨_, _, measures⟩ :=
    derived.within composes_true (argumentsNest composes_true _ _)
  exact aliases.behind measures.calls

theorem readLinks (subject other : Compound) (left leftOther : List (Combinator × Compound))
    (tokens : List Token)
    (aliases : strict.aliases.Tracks refusal loose.aliases (called tokens)) :
    Reading.Tracks refusal Reading.SameRest (readLinks strict subject left tokens)
      (readLinks loose other leftOther tokens) := by
  -- Each link leaves fewer tokens for those after it.
  induction tokens using (measure List.length).wf.induction generalizing
    subject other left leftOther with
  | _ tokens induction =>
  rw [Parser.readLinks, Parser.readLinks, tracks.opened]
  generalize skipped : skipBlank tokens = start
  obtain ⟨start, startFits⟩ := start
  obtain ⟨blank, isBlank, rfl, -⟩ := skipBlank_eq_iff.mp skipped
  replace aliases := aliases.behind isBlank.flat.calls
  dsimp only
  split
  · rename_i combinator afterSign fewer signed
    obtain ⟨sign, rfl, isSign⟩ := readCombinator?_eq_some_iff.mp signed
    rw [← List.singleton_append] at aliases
    replace aliases := aliases.behind isSign.flat.calls
    generalize skippedNext : skipBlank afterSign = next
    obtain ⟨next, nextFits⟩ := next
    obtain ⟨gap, isGap, rfl, -⟩ := skipBlank_eq_iff.mp skippedNext
    replace aliases := aliases.behind isGap.flat.calls
    refine (tracks.readCompound next aliases).bind_rest
      fun compound found rest shorter yielded => ?_
    have nearer : rest.length < (blank ++ sign :: (gap ++ next)).length := by omega
    exact (induction rest nearer _ _ _ _
      (tracks.behind_compound aliases yielded)).bind_rest fun _ _ _ _ _ => .pure rfl
  · split
    · exact .pure rfl
    · split
      · refine (tracks.readCompound start aliases).bind_rest
          fun compound found rest shorter yielded => ?_
        have nearer : rest.length < (blank ++ start).length := by omega
        exact (induction rest nearer _ _ _ _
          (tracks.behind_compound aliases yielded)).bind_rest fun _ _ _ _ _ => .pure rfl
      · exact .throw (not_isCycle_atToken _ _)

theorem readChain (relative : Bool) (tokens : List Token)
    (aliases : strict.aliases.Tracks refusal loose.aliases (called tokens)) :
    Reading.Tracks refusal Reading.SameRest (readChain strict relative tokens)
      (readChain loose relative tokens) := by
  unfold Parser.readChain
  generalize anchored : readAnchor relative tokens = opening
  obtain ⟨anchor, start, startFits⟩ := opening
  obtain ⟨segment, rfl, flat⟩ := flat_of_readAnchor anchored
  replace aliases := aliases.behind flat.calls
  refine (tracks.readCompound start aliases).bind_rest fun _ _ _ _ yielded => ?_
  exact (tracks.readLinks _ _ _ _ _ (tracks.behind_compound aliases yielded)).bind_rest
    fun _ _ _ _ _ => .pure rfl

theorem readChains (relative : Bool) (tokens : List Token)
    (aliases : strict.aliases.Tracks refusal loose.aliases (called tokens)) :
    Reading.Tracks refusal Reading.SameRest (readChains strict relative tokens)
      (readChains loose relative tokens) := by
  -- Each chain leaves fewer tokens for those after it.
  induction tokens using (measure List.length).wf.induction with
  | _ tokens induction =>
  rw [Parser.readChains, Parser.readChains]
  generalize skipped : skipBlank tokens = start
  obtain ⟨start, startFits⟩ := start
  obtain ⟨blank, isBlank, rfl, notBlank⟩ := skipBlank_eq_iff.mp skipped
  replace aliases := aliases.behind isBlank.flat.calls
  refine (tracks.readChain relative start aliases).bind_rest
    fun chain other rest shorter yielded => ?_
  obtain ⟨_, _, _, answered⟩ := yielded
  obtain ⟨segment, gap, rfl, isGap, derived, -⟩ :=
    readChain_sound tracks.reads notBlank answered
  obtain ⟨_, _, measures⟩ :=
    derived.within composes_true (argumentsNest composes_true _ _)
  replace aliases := (aliases.behind measures.calls).behind isGap.flat.calls
  dsimp only
  generalize skippedNext : skipBlank rest = next
  obtain ⟨next, nextFits⟩ := next
  obtain ⟨final, isFinal, rfl, -⟩ := skipBlank_eq_iff.mp skippedNext
  replace aliases := aliases.behind isFinal.flat.calls
  dsimp only
  split
  · rename_i afterComma fewer separated
    obtain ⟨comma, rfl, isComma⟩ := accept?_eq_some_iff.mp separated
    rw [called_cons (by simp [isComma])] at aliases
    have nearer : afterComma.length < (blank ++ (segment ++ (gap ++ (final ++
        comma :: afterComma)))).length := by
      simp only [List.length_append, List.length_cons]
      omega
    exact (induction afterComma nearer aliases).bind_rest fun _ _ _ _ _ => .pure rfl
  · exact .pure rfl

end Context.Tracks

section

variable {strict : AliasSource σ} {loose : AliasSource τ}

/-- Where the first reader may not nest as deep as the second one, it refuses. -/
theorem readArgument_tracks {limit more levels deeper : Nat} (fits : levels ≤ deeper)
    (bounded : refusal (.nestingTooDeep limit) ∨ limit = more ∧ levels = deeper)
    (opening : Nat) (relative : Bool) (tokens : List Token)
    (aliases : strict.Tracks refusal loose (called tokens)) :
    Reading.Tracks refusal Reading.SameRest
      (readArgument strict limit levels opening relative tokens)
      (readArgument loose more deeper opening relative tokens) := by
  induction levels generalizing deeper opening relative tokens with
  | zero =>
      rcases bounded with refuses | ⟨rfl, rfl⟩
      · exact .refuse refuses _
      · exact .throw nofun
  | succ levels induction =>
      cases deeper with
      | zero => cases fits
      | succ deeper =>
          have inner := induction (Nat.le_of_succ_le_succ fits)
            (bounded.imp_right fun same => ⟨same.1, Nat.succ.inj same.2⟩)
          have tracks : Context.Tracks refusal levels
              ⟨strict, some opening, readArgument strict limit levels⟩
              ⟨loose, some opening, readArgument loose more deeper⟩ :=
            ⟨rfl, readArgument_reads strict limit levels _, inner⟩
          rw [readArgument_succ, readArgument_succ]
          refine (tracks.readChains relative tokens aliases).bind_rest
            fun _ _ _ _ _ => ?_
          dsimp only
          split
          · exact .pure rfl
          · exact .throw (not_isCycle_atToken _ _)

/-- Two readers of one text go through it side by side, if their sources do so on the
names that it calls. -/
theorem readAll_tracks {maxNesting more : Nat} (fits : maxNesting ≤ more)
    (bounded : refusal (.nestingTooDeep maxNesting) ∨ maxNesting = more)
    (tokens : List Token) (aliases : strict.Tracks refusal loose (called tokens)) :
    Reading.Tracks refusal (fun _ _ => True) (readAll strict maxNesting tokens)
      (readAll loose more tokens) := by
  have tracks : Context.Tracks refusal maxNesting
      ⟨strict, none, readArgument strict maxNesting maxNesting⟩
      ⟨loose, none, readArgument loose more more⟩ :=
    ⟨rfl, readArgument_reads strict maxNesting maxNesting _,
      readArgument_tracks fits (bounded.imp_right fun same => ⟨same, same⟩)⟩
  unfold readAll
  dsimp only
  generalize skipped : (skipBlank tokens).val = start
  obtain ⟨blank, isBlank, rfl, -⟩ := skipBlank_val_iff.mp skipped
  replace aliases := aliases.behind isBlank.flat.calls
  by_cases ended : Token.peek start = .endOfInput
  · rw [if_pos ended, if_pos ended]
    exact .throw nofun
  · rw [if_neg ended, if_neg ended]
    refine (tracks.readChains false start aliases).bind_rest fun _ _ _ _ _ => ?_
    dsimp only
    split
    · exact .pure trivial
    · exact .throw (not_isCycle_atToken _ _)

end

end Selector.Parser

end

end TreeSelectors
