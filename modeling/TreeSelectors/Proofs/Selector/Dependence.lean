import TreeSelectors.Proofs.Selector.Nesting

/-!
# What a derivation depends on

A derivation depends on the bound on nesting only by the depth to which the arguments
nest, and on the aliases only by those that the tokens call.  Both are found along with
the derivation, segment by segment.
-/

namespace TreeSelectors

namespace Grammar

open Token

section

variable {σ : Type} {aliases : AliasSource σ} {levels : Nat}
  {first second segment : List Token} {known later : σ}

/-- The setting in which arguments nest at most `levels` deep. -/
abbrev Setting.upTo (aliases : AliasSource σ) (levels : Nat) : Setting σ :=
  ⟨aliases, Argument aliases levels⟩

/-- A property of segments that tokens without functions have, functions with their
arguments have, and that goes from two segments to both together. -/
structure Composes (holds : List Token → Prop) : Prop where
  flat {segment : List Token} : Flat segment → holds segment
  colon {token : Token} : token.kind = .colon → holds [token]
  append {first second : List Token} :
    holds first → holds second → holds (first ++ second)
  formula {token : Token} {name : String} {counting : Counting} {tokens : List Token}
      {formula : Nth} :
    token.kind = .function name →
    Counting.ofName? (Text.foldCase name) = some counting →
    Formula tokens formula → holds (token :: tokens)
  function {token close : Token} {name : String} {list : List Token} :
    token.kind = .function name →
    (SelectorFunction.ofName? (Text.foldCase name)).isSome →
    holds list → close.kind = .rightParen → holds (token :: (list ++ [close]))

theorem composes_true : Composes fun _ => True where
  flat _ := trivial
  colon _ := trivial
  append _ _ := trivial
  formula _ _ _ := trivial
  function _ _ _ _ := trivial

/-- The source expands a name, whatever it has to know for it. -/
def Expands (aliases : AliasSource σ) (name : String) : Prop :=
  ∃ known selector later, (aliases.expand name).run known = .ok (some selector, later)

/-- The tokens have the property, arguments nest to a depth within them, which is at most
`levels`, and they call the given names, which the aliases expand.  What they are to
derive is derived within all levels that suffice for them and with all aliases that
expand these names in the same way. -/
structure Measures (holds : List Token → Prop) (aliases : AliasSource σ) (levels : Nat)
    (segment : List Token) (derives : AliasSource σ → Nat → Prop) (depth : Nat)
    (names : List String) : Prop where
  nests : Nests segment depth
  calls : Calls segment names
  property : holds segment
  fits : depth ≤ levels
  expands : ∀ name ∈ names, Expands aliases name
  derived {source : AliasSource σ} {other : Nat} : depth ≤ other →
    (∀ name ∈ names, source.expand name = aliases.expand name) → derives source other

/-- The tokens have a depth and names that measure what they derive. -/
def Within (holds : List Token → Prop) (aliases : AliasSource σ) (levels : Nat)
    (segment : List Token) (derives : AliasSource σ → Nat → Prop) : Prop :=
  ∃ depth names, Measures holds aliases levels segment derives depth names

section

variable {holds : List Token → Prop} (composes : Composes holds)

theorem Within.mono {one another : AliasSource σ → Nat → Prop}
    (within : Within holds aliases levels segment one)
    (weaken : ∀ source other, one source other → another source other) :
    Within holds aliases levels segment another := by
  obtain ⟨depth, names, measures⟩ := within
  exact ⟨depth, names, { measures with
    derived := fun fits same => weaken _ _ (measures.derived fits same) }⟩

include composes

theorem Flat.within {derives : AliasSource σ → Nat → Prop} (flat : Flat segment)
    (derived : ∀ source other, derives source other) :
    Within holds aliases levels segment derives :=
  ⟨0, [], {
    nests := flat.nests
    calls := flat.calls
    property := composes.flat flat
    fits := Nat.zero_le _
    expands := by simp
    derived := fun _ _ => derived _ _ }⟩

theorem Within.append {one another both : AliasSource σ → Nat → Prop}
    (head : Within holds aliases levels first one)
    (tail : Within holds aliases levels second another)
    (join : ∀ source other, one source other → another source other →
      both source other) :
    Within holds aliases levels (first ++ second) both := by
  obtain ⟨firstDepth, firstNames, first⟩ := head
  obtain ⟨secondDepth, secondNames, second⟩ := tail
  refine ⟨max firstDepth secondDepth, firstNames ++ secondNames, {
    nests := first.nests.append second.nests
    calls := first.calls.append second.calls
    property := composes.append first.property second.property
    fits := Nat.max_le.mpr ⟨first.fits, second.fits⟩
    expands := List.forall_mem_append.mpr ⟨first.expands, second.expands⟩
    derived := ?_ }⟩
  intro source other fits same
  obtain ⟨firstFits, secondFits⟩ := Nat.max_le.mp fits
  obtain ⟨firstSame, secondSame⟩ := List.forall_mem_append.mp same
  exact join source other (first.derived firstFits firstSame)
    (second.derived secondFits secondSame)

/-- What the levels below do with the tokens of an argument behind its
function. -/
def ArgumentsNest (holds : List Token → Prop) (aliases : AliasSource σ)
    (levels : Nat) : Prop :=
  ∀ {relative : Bool} {known later : σ} {segment : List Token}
    {selector : Selector} {token : Token} {name : String},
    token.kind = .function name →
    (SelectorFunction.ofName? (Text.foldCase name)).isSome →
    Argument aliases levels relative known segment selector later →
    Within holds aliases levels (token :: segment) fun source other =>
      Argument source other relative known segment selector later

/-- A function behind a colon. -/
theorem Within.function {colon token : Token} {name : String}
    {derives : AliasSource σ → Nat → Prop} (colonKind : colon.kind = .colon)
    (kind : token.kind = .function name)
    (within : Within holds aliases levels (token :: segment) derives) :
    Within holds aliases levels (colon :: token :: segment) derives := by
  obtain ⟨depth, names, measures⟩ := within
  have opening : Nests [colon] 0 := .single (by rw [isFlat, colonKind])
  have nests := opening.append measures.nests
  rw [Nat.zero_max] at nests
  exact ⟨depth, names, { measures with
    nests
    calls := .function colonKind kind measures.calls
    property := composes.append (composes.colon colonKind) measures.property }⟩

/-- A name behind a colon. -/
theorem within_ident {colon token : Token} {name : String}
    {derives : AliasSource σ → Nat → Prop} (colonKind : colon.kind = .colon)
    (kind : token.kind = .ident name)
    (expands : mayAbbreviate (Text.foldCase name) = true →
      Expands aliases (Text.foldCase name))
    (derived : ∀ source other, (mayAbbreviate (Text.foldCase name) = true →
      source.expand (Text.foldCase name) = aliases.expand (Text.foldCase name)) →
      derives source other) :
    Within holds aliases levels [colon, token] derives := by
  have opening : Nests [colon] 0 := .single (by rw [isFlat, colonKind])
  have named : Flat [token] := by
    simp [isFlat, kind]
  refine ⟨0, _, {
    nests := opening.append named.nests
    calls := .ident colonKind kind
    property := composes.append (composes.colon colonKind) (composes.flat named)
    fits := Nat.zero_le _
    expands := ?_
    derived := ?_ }⟩
  · intro other member
    obtain ⟨isName, called⟩ := List.mem_filter.mp member
    rw [List.mem_singleton.mp isName] at called ⊢
    exact expands called
  · intro source other _ same
    exact derived source other fun called =>
      same _ (List.mem_filter.mpr ⟨List.mem_singleton_self _, called⟩)

theorem Pseudo.within (arguments : ArgumentsNest holds aliases levels) {simple : Simple}
    {colon : Token} (colonKind : colon.kind = .colon)
    (derived : Pseudo (.upTo aliases levels) known segment simple later) :
    Within holds aliases levels (colon :: segment) fun source other =>
      Pseudo (.upTo source other) known segment simple later := by
  cases derived with
  | @element second token name secondKind kind =>
      have opening (colon : Token) (kind : colon.kind = .colon) : Nests [colon] 0 :=
        .single (by rw [isFlat, kind])
      have named : Flat [token] := by
        simp [isFlat, kind]
      exact ⟨0, [], {
        nests := (opening colon colonKind).append
          ((opening second secondKind).append named.nests)
        calls := .element colonKind secondKind kind
        property := composes.append (composes.colon colonKind)
          (composes.append (composes.colon secondKind) (composes.flat named))
        fits := Nat.zero_le _
        expands := by simp
        derived := fun _ _ => .element secondKind kind }⟩
  | legacyElement kind legacy =>
      exact within_ident composes colonKind kind (by simp [mayAbbreviate, legacy])
        fun _ _ _ => .legacyElement kind legacy
  | plain kind named =>
      exact within_ident composes colonKind kind (by simp [mayAbbreviate, named])
        fun _ _ _ => .plain kind named
  | abbreviation kind notPlain notLegacy notFunction notCounting expanded =>
      refine within_ident composes colonKind kind (fun _ => ⟨_, _, _, expanded⟩) ?_
      intro source other same
      refine .abbreviation kind notPlain notLegacy notFunction notCounting ?_
      rw [same (by simp [mayAbbreviate, notPlain, notLegacy])]
      exact expanded
  | nth kind counts formula =>
      refine Within.function composes colonKind kind ?_
      cases formula with
      | parts parts closes parsed =>
          have flat := flat_of_isFormulaPart parts
          have nests := Nests.function kind flat.nests closes
          rw [Selector.Parser.selectorFunction_of_counting counts] at nests
          exact ⟨0, [], {
            nests
            calls := .argument kind flat.calls closes
            property := composes.formula kind counts (.parts parts closes parsed)
            fits := Nat.zero_le _
            expands := by simp
            derived := fun _ _ => .nth kind counts (.parts parts closes parsed) }⟩
  | functional kind named argued =>
      exact ((arguments kind (by simp [named]) argued).function composes colonKind
        kind).mono fun _ _ argued => .functional kind named argued

theorem Condition.within (arguments : ArgumentsNest holds aliases levels)
    {simple : Simple}
    (derived : Condition (.upTo aliases levels) known segment simple later) :
    Within holds aliases levels segment fun source other =>
      Condition (.upTo source other) known segment simple later := by
  cases derived with
  | id kind plain =>
      apply Flat.within composes
      · simp [isFlat, kind]
      · intro _ _
        exact .id kind plain
  | className dot kind plain =>
      apply Flat.within composes
      · simp [isFlat, dot, kind]
      · intro _ _
        exact .className dot kind plain
  | «attribute» bracket derived =>
      apply Flat.within composes
      · exact flat_cons_iff.mpr ⟨by simp [isFlat, bracket], derived.flat⟩
      · intro _ _
        exact .attribute bracket derived
  | pseudo kind derived =>
      exact (derived.within composes arguments kind).mono fun _ _ => .pseudo kind

theorem First.within (arguments : ArgumentsNest holds aliases levels) {simple : Simple}
    (derived : First (.upTo aliases levels) known segment simple later) :
    Within holds aliases levels segment fun source other =>
      First (.upTo source other) known segment simple later := by
  cases derived with
  | type kind plain =>
      apply Flat.within composes
      · simp [isFlat, kind]
      · intro _ _
        exact .type kind plain
  | universal kind =>
      apply Flat.within composes
      · simp [isFlat, kind]
      · intro _ _
        exact .universal kind
  | condition derived =>
      exact (derived.within composes arguments).mono fun _ _ => .condition

theorem Conditions.within (arguments : ArgumentsNest holds aliases levels)
    {conditions : List Simple}
    (derived : Conditions (.upTo aliases levels) known segment conditions later) :
    Within holds aliases levels segment fun source other =>
      Conditions (.upTo source other) known segment conditions later := by
  induction derived with
  | nil => exact flat_nil.within composes fun _ _ => .nil
  | cons first _ induction =>
      exact (first.within composes arguments).append composes induction fun _ _ => .cons

theorem CompoundOf.within (arguments : ArgumentsNest holds aliases levels)
    {compound : Compound}
    (derived : CompoundOf (.upTo aliases levels) known segment compound later) :
    Within holds aliases levels segment fun source other =>
      CompoundOf (.upTo source other) known segment compound later := by
  cases derived with
  | conditions first rest =>
      exact (first.within composes arguments).append composes
        (rest.within composes arguments) fun _ _ => .conditions

theorem Links.within (arguments : ArgumentsNest holds aliases levels)
    {subject final : Compound} {left leftmost : List (Combinator × Compound)}
    (derived : Links (.upTo aliases levels) known subject left segment final
      leftmost later) :
    Within holds aliases levels segment fun source other =>
      Links (.upTo source other) known subject left segment final leftmost
        later := by
  induction derived with
  | nil => exact flat_nil.within composes fun _ _ => .nil
  | cons separates compound _ induction =>
      have link := (separates.flat.within composes fun _ _ => separates).append composes
        (compound.within composes arguments) fun _ _ _ derived => derived
      exact link.append composes induction fun _ _ => .cons separates

theorem ChainOf.within (arguments : ArgumentsNest holds aliases levels)
    {relative : Bool} {chain : Chain}
    (derived : ChainOf (.upTo aliases levels) relative known segment chain later) :
    Within holds aliases levels segment fun source other =>
      ChainOf (.upTo source other) relative known segment chain later := by
  cases derived with
  | links anchored compound linked =>
      have start := (anchored.flat.within composes fun _ _ => anchored).append composes
        (compound.within composes arguments) fun _ _ _ derived => derived
      exact start.append composes (linked.within composes arguments)
        fun _ _ => .links anchored

theorem ListOf.within (arguments : ArgumentsNest holds aliases levels)
    {relative : Bool} {selector : Selector}
    (derived : ListOf (.upTo aliases levels) relative known segment selector
      later) :
    Within holds aliases levels segment fun source other =>
      ListOf (.upTo source other) relative known segment selector later := by
  induction derived with
  | single first chain last =>
      have start := (first.flat.within composes fun _ _ => first).append composes
        (chain.within composes arguments) fun _ _ _ derived => derived
      exact start.append composes (last.flat.within composes fun _ _ => last)
        fun _ _ derived _ => .single first derived last
  | @cons _ _ _ _ _ _ _ comma _ _ first chain last kind _ induction =>
      have start := (first.flat.within composes fun _ _ => first).append composes
        (chain.within composes arguments) fun _ _ _ derived => derived
      have start := start.append composes (last.flat.within composes fun _ _ => last)
        fun _ _ derived _ => derived
      have separator : Flat [comma] := by
        simp [isFlat, kind]
      have rest := (separator.within composes fun _ _ => kind).append composes induction
        fun _ _ _ derived => derived
      exact start.append composes rest fun _ _ derived listed =>
        .cons first derived last kind listed

theorem argumentsNest (aliases : AliasSource σ) (levels : Nat) :
    ArgumentsNest holds aliases levels := by
  induction levels with
  | zero =>
      intro _ _ _ _ _ _ _ _ _ impossible
      exact impossible.elim
  | succ levels induction =>
      rintro relative known later _ selector token name kind nested
        ⟨list, close, rfl, closes, listed⟩
      obtain ⟨depth, names, measures⟩ := listed.within composes induction
      have nests := Nests.function kind measures.nests closes
      have fits := measures.fits
      rw [nested, Bool.toNat_true] at nests
      refine ⟨1 + depth, names, {
        nests
        calls := .argument kind measures.calls closes
        property := composes.function kind nested measures.property closes
        fits := by omega
        expands := measures.expands
        derived := ?_ }⟩
      intro source other deep same
      cases other with
      | zero => omega
      | succ other =>
          exact ⟨list, close, rfl, closes, measures.derived (by omega) same⟩

/-- A selector is derived within exactly the levels that suffice for its tokens, and with
all aliases that expand the called names in the same way. -/
theorem Whole.within {selector : Selector}
    (derived : Whole aliases levels known segment selector later) :
    Within holds aliases levels segment fun source other =>
      Whole source other known segment selector later :=
  ListOf.within composes (argumentsNest composes aliases levels) derived

/-- Every derived segment has the property. -/
theorem Whole.property {selector : Selector}
    (derived : Whole aliases levels known segment selector later) : holds segment := by
  obtain ⟨_, _, measures⟩ := Whole.within composes derived
  exact measures.property

end

section

variable {selector : Selector}
  (derived : Whole aliases levels known segment selector later)

include derived

theorem Whole.nesting_le : nesting segment ≤ levels := by
  obtain ⟨depth, _, measures⟩ := Whole.within composes_true derived
  rw [measures.nests.nesting_eq]
  exact measures.fits

theorem Whole.goesOn : ∀ token ∈ segment, token.kind ≠ .endOfInput := by
  obtain ⟨_, _, measures⟩ := Whole.within composes_true derived
  exact measures.nests.goesOn

/-- Every called name was expanded. -/
theorem Whole.expands {name : String} (member : name ∈ called segment) :
    Expands aliases name := by
  obtain ⟨_, names, measures⟩ := Whole.within composes_true derived
  rw [measures.calls.called_eq] at member
  exact measures.expands name member

/-- Other aliases derive the same selector within other levels if these suffice and the
called names mean the same. -/
theorem Whole.of_called {source : AliasSource σ} {other : Nat}
    (fits : nesting segment ≤ other)
    (same : ∀ name ∈ called segment, source.expand name = aliases.expand name) :
    Whole source other known segment selector later := by
  obtain ⟨_, names, measures⟩ := Whole.within composes_true derived
  rw [measures.nests.nesting_eq] at fits
  rw [measures.calls.called_eq] at same
  exact measures.derived fits same

/-- The end of a text neither nests nor calls anything. -/
theorem Whole.end_eq {stop : Token} (stops : stop.kind = .endOfInput) :
    nesting (segment ++ [stop]) = nesting segment ∧
      called (segment ++ [stop]) = called segment := by
  obtain ⟨_, _, measures⟩ := Whole.within composes_true derived
  rw [measures.nests.nesting_append stops, measures.nests.nesting_eq,
    measures.calls, measures.calls.called_eq]
  exact ⟨rfl, List.append_nil _⟩

end

end

end Grammar

end TreeSelectors
