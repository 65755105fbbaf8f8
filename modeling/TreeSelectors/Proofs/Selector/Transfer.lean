import TreeSelectors.Proofs.Selector.Parsing

/-!
# Derivations carried over

What a derivation needs to know about its tokens are their kinds, which names start
with a digit, and what formulas say; what it needs to know about aliases is what its
source answers.  If other tokens and a second source agree in this, then they derive
the same selector.  The first source may learn on the way; that the second one still
answers alike is known only from the end, so the argument goes from there back to the
start, while what the second one knows goes along from the start to the end.
-/

namespace TreeSelectors

namespace Grammar

variable {σ τ : Type}

/-! ## Other tokens -/

/-- A change of the tokens of a segment that no derivation notices: every token keeps
its kind, no name becomes a number, and every formula says the same. -/
structure Respells (change : Token → Token) (segment : List Token) : Prop where
  kinds : ∀ token ∈ segment, (change token).kind = token.kind
  ident : ∀ token ∈ segment, ∀ name, token.kind = .ident name →
    token.startsWithDigit 0 = false → (change token).startsWithDigit 0 = false
  hash : ∀ token ∈ segment, ∀ name, token.kind = .hash name →
    token.startsWithDigit 1 = false → (change token).startsWithDigit 1 = false
  formula : ∀ call arguments name counting nth, call :: arguments <:+: segment →
    call.kind = .function name →
    Counting.ofName? (Text.foldCase name) = some counting →
    Formula arguments nth → Formula (arguments.map change) nth

theorem Respells.id (segment : List Token) : Respells id segment where
  kinds _ _ := rfl
  ident _ _ _ _ noDigit := noDigit
  hash _ _ _ _ noDigit := noDigit
  formula _ _ _ _ _ _ _ _ formula := by rwa [List.map_id]

section

variable {change : Token → Token} {segment inner : List Token}

theorem Respells.within (respells : Respells change segment)
    (inside : inner <:+: segment) : Respells change inner where
  kinds token member := respells.kinds token (inside.mem member)
  ident token member := respells.ident token (inside.mem member)
  hash token member := respells.hash token (inside.mem member)
  formula _ _ _ _ _ part := respells.formula _ _ _ _ _ (part.trans inside)

theorem Respells.append {left right : List Token}
    (respells : Respells change (left ++ right)) :
    Respells change left ∧ Respells change right :=
  ⟨respells.within (List.prefix_append _ _).isInfix,
    respells.within (List.suffix_append _ _).isInfix⟩

theorem Respells.tail {token : Token} (respells : Respells change (token :: segment)) :
    Respells change segment :=
  respells.within (List.suffix_cons _ _).isInfix

theorem Respells.head {token : Token} (respells : Respells change (token :: segment)) :
    (change token).kind = token.kind :=
  respells.kinds token List.mem_cons_self

theorem Blank.map (blank : Blank segment)
    (kinds : ∀ token ∈ segment, (change token).kind = token.kind) :
    Blank (segment.map change) := by
  intro token member
  obtain ⟨original, among, rfl⟩ := List.mem_map.mp member
  exact (kinds original among).trans (blank original among)

theorem Operator.map {operator : AttributeOperator} (derived : Operator segment operator)
    (kinds : ∀ token ∈ segment, (change token).kind = token.kind) :
    Operator (segment.map change) operator := by
  cases derived with
  | equals sign =>
      simp only [List.forall_mem_cons] at kinds
      exact .equals (kinds.1.trans sign)
  | signed sign known equals =>
      simp only [List.forall_mem_cons] at kinds
      exact .signed (kinds.1.trans sign) known (kinds.2.1.trans equals)

theorem Flag.map {flag : CaseFlag} (derived : Flag segment flag)
    (kinds : ∀ token ∈ segment, (change token).kind = token.kind) :
    Flag (segment.map change) flag := by
  cases derived with
  | unstated => exact .unstated
  | insensitive ident same blank =>
      simp only [List.forall_mem_cons] at kinds
      exact .insensitive (kinds.1.trans ident) same (blank.map kinds.2)
  | sensitive ident same blank =>
      simp only [List.forall_mem_cons] at kinds
      exact .sensitive (kinds.1.trans ident) same (blank.map kinds.2)

theorem Comparison.map {name : String} {test : AttributeTest}
    (derived : Comparison name segment test)
    (kinds : ∀ token ∈ segment, (change token).kind = token.kind) :
    Comparison name (segment.map change) test := by
  cases derived with
  | compare operator before value after flag =>
      simp only [List.forall_mem_append, List.forall_mem_cons] at kinds
      obtain ⟨⟨⟨signKinds, firstKinds⟩, own, secondKinds⟩, flagKinds⟩ := kinds
      simp only [List.map_append, List.map_cons]
      refine .compare (operator.map signKinds) (before.map firstKinds) ?_
        (after.map secondKinds) (flag.map flagKinds)
      rwa [own]

theorem Attribute.map {test : AttributeTest} (derived : Attribute segment test)
    (kinds : ∀ token ∈ segment, (change token).kind = token.kind) :
    Attribute (segment.map change) test := by
  cases derived with
  | present before ident after close =>
      simp only [List.forall_mem_append, List.forall_mem_cons] at kinds
      obtain ⟨⟨firstKinds, own, secondKinds⟩, closeKind, -⟩ := kinds
      simp only [List.map_append, List.map_cons, List.map_nil]
      exact .present (before.map firstKinds) (own.trans ident) (after.map secondKinds)
        (closeKind.trans close)
  | comparison before ident after comparison close =>
      simp only [List.forall_mem_append, List.forall_mem_cons] at kinds
      obtain ⟨⟨⟨firstKinds, own, secondKinds⟩, restKinds⟩, closeKind, -⟩ := kinds
      simp only [List.map_append, List.map_cons, List.map_nil]
      exact .comparison (before.map firstKinds) (own.trans ident)
        (after.map secondKinds) (comparison.map restKinds) (closeKind.trans close)

theorem Sign.map {token : Token} {combinator : Combinator} (sign : Sign token combinator)
    (kind : (change token).kind = token.kind) : Sign (change token) combinator := by
  cases sign with
  | child known => exact .child (kind.trans known)
  | nextSibling known => exact .nextSibling (kind.trans known)
  | laterSibling known => exact .laterSibling (kind.trans known)

theorem Separator.map {combinator : Combinator}
    (derived : Separator segment combinator)
    (kinds : ∀ token ∈ segment, (change token).kind = token.kind) :
    Separator (segment.map change) combinator := by
  cases derived with
  | signed before sign after =>
      simp only [List.forall_mem_append, List.forall_mem_cons] at kinds
      obtain ⟨firstKinds, own, secondKinds⟩ := kinds
      simp only [List.map_append, List.map_cons]
      exact .signed (before.map firstKinds) (sign.map own) (after.map secondKinds)
  | descendant blank nonempty =>
      exact .descendant (blank.map kinds) (by simpa using nonempty)

theorem Anchor.map {relative : Bool} {anchor : Option Combinator}
    (derived : Anchor relative segment anchor)
    (kinds : ∀ token ∈ segment, (change token).kind = token.kind) :
    Anchor relative (segment.map change) anchor := by
  cases derived with
  | none => exact .none
  | implied => exact .implied
  | signed sign blank =>
      simp only [List.forall_mem_cons] at kinds
      exact .signed (sign.map kinds.1) (blank.map kinds.2)

end

/-! ## Another source of aliases -/

/-- If enough is known afterwards, then enough was known before; and from whatever is
related to what was known, one gets to something that is related to what is known
later. -/
def Carried (enough : σ → Prop) (related : σ → τ → Prop) (known later : σ)
    (derives : τ → τ → Prop) : Prop :=
  enough later → enough known ∧ ∀ state, related known state →
    ∃ after, related later after ∧ derives state after

/-- Whatever the first source expands an alias to, the second one expands it to as
well. -/
def Follows (first : AliasSource σ) (second : AliasSource τ) (enough : σ → Prop)
    (related : σ → τ → Prop) : Prop :=
  ∀ name known selector later,
    (first.expand name).run known = .ok (some selector, later) →
    Carried enough related known later fun state after =>
      (second.expand name).run state = .ok (some selector, after)

/-- The same for the arguments of functional pseudo-classes. -/
def FollowsArguments (change : Token → Token) (first : Setting σ) (second : Setting τ)
    (enough : σ → Prop) (related : σ → τ → Prop) : Prop :=
  ∀ relative known segment selector later, Respells change segment →
    first.argument relative known segment selector later →
    Carried enough related known later fun state after =>
      second.argument relative state (segment.map change) selector after

section

variable {enough : σ → Prop} {related : σ → τ → Prop} {known between later : σ}
  {derives : τ → τ → Prop}

theorem Carried.still (derived : ∀ state, derives state state) :
    Carried enough related known known derives :=
  fun final => ⟨final, fun state start => ⟨state, start, derived state⟩⟩

theorem Carried.imp {other : τ → τ → Prop}
    (carried : Carried enough related known later derives)
    (implied : ∀ state after, derives state after → other state after) :
    Carried enough related known later other := by
  intro final
  obtain ⟨before, leads⟩ := carried final
  refine ⟨before, fun state start => ?_⟩
  obtain ⟨after, ends, derived⟩ := leads state start
  exact ⟨after, ends, implied state after derived⟩

/-- One derivation and then another one. -/
theorem Carried.seq {next whole : τ → τ → Prop}
    (first : Carried enough related known between derives)
    (second : Carried enough related between later next)
    (together : ∀ state halfway after, derives state halfway → next halfway after →
      whole state after) :
    Carried enough related known later whole := by
  intro final
  obtain ⟨middle, leadsOn⟩ := second final
  obtain ⟨before, leads⟩ := first middle
  refine ⟨before, fun state start => ?_⟩
  obtain ⟨halfway, reached, derived⟩ := leads state start
  obtain ⟨after, ends, continued⟩ := leadsOn halfway reached
  exact ⟨after, ends, together state halfway after derived continued⟩

end

section

variable {change : Token → Token} {first : Setting σ} {second : Setting τ}
  {enough : σ → Prop} {related : σ → τ → Prop} {known later : σ} {segment : List Token}
  (follows : Follows first.aliases second.aliases enough related)
  (arguments : FollowsArguments change first second enough related)

include follows arguments

theorem Pseudo.transfer {simple : Simple}
    (derived : Pseudo first known segment simple later)
    (respells : Respells change segment) :
    Carried enough related known later fun state after =>
      Pseudo second state (segment.map change) simple after := by
  have head := respells.kinds
  cases derived with
  | element colon ident =>
      exact .still fun _ => .element ((head _ (by simp)).trans colon)
        ((head _ (by simp)).trans ident)
  | legacyElement ident legacy =>
      exact .still fun _ => .legacyElement (respells.head.trans ident) legacy
  | plain ident found =>
      exact .still fun _ => .plain (respells.head.trans ident) found
  | abbreviation ident noPlain noLegacy noFunction noCounting expanded =>
      exact (follows _ _ _ _ expanded).imp fun _ _ same =>
        .abbreviation (respells.head.trans ident) noPlain noLegacy noFunction noCounting
          same
  | nth function found formula =>
      exact .still fun _ => .nth (respells.head.trans function) found
        (respells.formula _ _ _ _ _ List.infix_rfl function found formula)
  | functional function found argument =>
      exact (arguments _ _ _ _ _ respells.tail argument).imp fun _ _ same =>
        .functional (respells.head.trans function) found same

theorem Condition.transfer {simple : Simple}
    (derived : Condition first known segment simple later)
    (respells : Respells change segment) :
    Carried enough related known later fun state after =>
      Condition second state (segment.map change) simple after := by
  have kinds := respells.kinds
  cases derived with
  | id hash noDigit =>
      exact .still fun _ => .id (respells.head.trans hash)
        (respells.hash _ (by simp) _ hash noDigit)
  | className dot ident noDigit =>
      exact .still fun _ => .className (respells.head.trans dot)
        (respells.tail.head.trans ident) (respells.ident _ (by simp) _ ident noDigit)
  | «attribute» bracket test =>
      exact .still fun _ => .attribute (respells.head.trans bracket)
        (test.map respells.tail.kinds)
  | pseudo colon pseudo =>
      exact (pseudo.transfer follows arguments respells.tail).imp fun _ _ same =>
        .pseudo (respells.head.trans colon) same

theorem First.transfer {simple : Simple}
    (derived : First first known segment simple later)
    (respells : Respells change segment) :
    Carried enough related known later fun state after =>
      First second state (segment.map change) simple after := by
  cases derived with
  | type ident noDigit =>
      exact .still fun _ => .type (respells.head.trans ident)
        (respells.ident _ (by simp) _ ident noDigit)
  | universal star => exact .still fun _ => .universal (respells.head.trans star)
  | condition condition =>
      exact (condition.transfer follows arguments respells).imp fun _ _ same =>
        .condition same

theorem Conditions.transfer {conditions : List Simple}
    (derived : Conditions first known segment conditions later)
    (respells : Respells change segment) :
    Carried enough related known later fun state after =>
      Conditions second state (segment.map change) conditions after := by
  induction derived with
  | nil => exact .still fun _ => .nil
  | cons condition _ induction =>
      refine (condition.transfer follows arguments respells.append.1).seq
        (induction respells.append.2) fun _ _ _ leading following => ?_
      rw [List.map_append]
      exact .cons leading following

theorem CompoundOf.transfer {compound : Compound}
    (derived : CompoundOf first known segment compound later)
    (respells : Respells change segment) :
    Carried enough related known later fun state after =>
      CompoundOf second state (segment.map change) compound after := by
  cases derived with
  | conditions leading following =>
      refine (leading.transfer follows arguments respells.append.1).seq
        (following.transfer follows arguments respells.append.2)
        fun _ _ _ leading following => ?_
      rw [List.map_append]
      exact .conditions leading following

theorem Links.transfer {subject last : Compound}
    {left leftmost : List (Combinator × Compound)}
    (derived : Links first known subject left segment last leftmost later)
    (respells : Respells change segment) :
    Carried enough related known later fun state after =>
      Links second state subject left (segment.map change) last leftmost after := by
  induction derived with
  | nil => exact .still fun _ => .nil
  | cons separator compound _ induction =>
      obtain ⟨front, rest⟩ := respells.append
      refine (compound.transfer follows arguments front.append.2).seq
        (induction rest) fun _ _ _ next links => ?_
      rw [List.map_append, List.map_append]
      exact .cons (separator.map front.append.1.kinds) next links

theorem ChainOf.transfer {relative : Bool} {chain : Chain}
    (derived : ChainOf first relative known segment chain later)
    (respells : Respells change segment) :
    Carried enough related known later fun state after =>
      ChainOf second relative state (segment.map change) chain after := by
  cases derived with
  | links anchor compound links =>
      obtain ⟨front, rest⟩ := respells.append
      refine (compound.transfer follows arguments front.append.2).seq
        (links.transfer follows arguments rest) fun _ _ _ leading following => ?_
      rw [List.map_append, List.map_append]
      exact .links (anchor.map front.append.1.kinds) leading following

theorem ListOf.transfer {relative : Bool} {selector : Selector}
    (derived : ListOf first relative known segment selector later)
    (respells : Respells change segment) :
    Carried enough related known later fun state after =>
      ListOf second relative state (segment.map change) selector after := by
  induction derived with
  | single front chain back =>
      obtain ⟨start, final⟩ := respells.append
      refine (chain.transfer follows arguments start.append.2).imp fun _ _ same => ?_
      rw [List.map_append, List.map_append]
      exact .single (front.map start.append.1.kinds) same (back.map final.kinds)
  | cons front chain back comma _ induction =>
      obtain ⟨start, following⟩ := respells.append
      obtain ⟨start, final⟩ := start.append
      refine (chain.transfer follows arguments start.append.2).seq
        (induction following.tail) fun _ _ _ leading rest => ?_
      rw [List.map_append, List.map_append, List.map_append, List.map_cons]
      exact .cons (front.map start.append.1.kinds) leading (back.map final.kinds)
        (following.head.trans comma) rest

end

section

variable {first : AliasSource σ} {second : AliasSource τ} {enough : σ → Prop}
  {related : σ → τ → Prop}

private theorem followsArguments (change : Token → Token)
    (follows : Follows first second enough related) {levels more : Nat}
    (fits : levels ≤ more) :
    FollowsArguments change ⟨first, Argument first levels⟩
      ⟨second, Argument second more⟩ enough related := by
  induction levels generalizing more with
  | zero => exact fun _ _ _ _ _ _ impossible => impossible.elim
  | succ levels induction =>
      cases more with
      | zero => cases fits
      | succ more =>
          intro relative known segment selector later respells argument
          obtain ⟨list, close, rfl, closes, listed⟩ := argument
          have arguments := induction (Nat.le_of_succ_le_succ fits)
          refine (listed.transfer follows arguments respells.append.1).imp
            fun _ _ same => ⟨list.map change, change close, ?_, ?_, same⟩
          · rw [List.map_append, List.map_singleton]
          · exact respells.append.2.head.trans closes

/-- What is read with the first source is read with the second one from other tokens,
also if more nesting is allowed. -/
theorem yields_readAll_transfer {change : Token → Token} {tokens : List Token}
    (respells : Respells change tokens) (follows : Follows first second enough related)
    {maxNesting more : Nat} (fits : maxNesting ≤ more) {remarks : List Remark}
    (others : List Remark) {known later : σ} {selector : Selector}
    (read : Reading.Yields (Selector.Parser.readAll first maxNesting tokens) remarks
      known selector later) :
    Carried enough related known later fun state after =>
      Reading.Yields (Selector.Parser.readAll second more (tokens.map change)) others
        state selector after := by
  obtain ⟨segment, rest, rfl, ended, derived⟩ :=
    Selector.Parser.readAll_yields_iff.mp read
  refine (ListOf.transfer follows (followsArguments change follows fits) derived
    respells.append.1).imp fun _ _ same => Selector.Parser.readAll_yields_iff.mpr
      ⟨segment.map change, rest.map change, List.map_append, ?_, same⟩
  cases rest with
  | nil => rfl
  | cons stop _ => exact respells.append.2.head.trans ended

/-- The same for one text. -/
theorem yields_read_carried (follows : Follows first second enough related)
    {maxNesting more : Nat} (fits : maxNesting ≤ more) {text : String}
    {remarks : List Remark} (others : List Remark) {known later : σ}
    {selector : Selector}
    (read : Reading.Yields (Selector.read first maxNesting text) remarks known selector
      later) :
    Carried enough related known later fun state after =>
      Reading.Yields (Selector.read second more text) others state selector after := by
  have carried := yields_readAll_transfer (.id _) follows fits others read
  rwa [List.map_id] at carried

/-! ## A source that does not learn -/

/-- Whatever the first source expands an alias to, if it knows enough afterwards,
the second one expands it to as well; and then the first one knew enough
before. -/
def Matched (first : AliasSource σ) (second : AliasSource τ) (enough : σ → Prop)
    (state : τ) : Prop :=
  ∀ name known selector later,
    (first.expand name).run known = .ok (some selector, later) → enough later →
      enough known ∧ (second.expand name).run state = .ok (some selector, state)

theorem Matched.follows {state : τ} (matched : Matched first second enough state) :
    Follows first second enough fun _ other => other = state := by
  intro name known selector later expanded final
  obtain ⟨start, same⟩ := matched name known selector later expanded final
  exact ⟨start, fun _ isState => ⟨state, rfl, isState ▸ same⟩⟩

theorem yields_read_transfer {state : τ} (matched : Matched first second enough state)
    {maxNesting more : Nat} {text : String} {remarks : List Remark} {known later : σ}
    {selector : Selector} (fits : maxNesting ≤ more) (others : List Remark)
    (read : Reading.Yields (Selector.read first maxNesting text) remarks known selector
      later)
    (final : enough later) :
    enough known ∧ Reading.Yields (Selector.read second more text) others state
      selector state := by
  obtain ⟨start, leads⟩ := yields_read_carried matched.follows fits others read final
  obtain ⟨_, rfl, same⟩ := leads state rfl
  exact ⟨start, same⟩

end

end Grammar

end TreeSelectors
