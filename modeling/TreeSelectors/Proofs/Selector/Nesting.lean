import TreeSelectors.Proofs.Selector.Abbreviations
import TreeSelectors.Proofs.Selector.Chains

/-!
# How deep arguments nest

Arguments nest as deep as functions over selectors are open at once.  This is a
number of the tokens alone, and most segments of a selector add nothing to it.
-/

namespace TreeSelectors

namespace Token

/-- The functions that are open behind a token, the innermost in front: whether
each is one over selectors. -/
def openBehind (opened : List Bool) (token : Token) : List Bool :=
  match token.kind with
  | .function name =>
      (SelectorFunction.ofName? (Text.foldCase name)).isSome :: opened
  | .rightParen => opened.tail
  | _ => opened

/-- The largest number of functions over selectors that are open at once, if
some functions are open already. -/
def nestingFrom (opened : List Bool) : List Token → Nat
  | [] => opened.count true
  | token :: rest =>
      max (opened.count true) (nestingFrom (openBehind opened token) rest)

/-- How deep the arguments of functions over selectors nest. -/
def nesting (tokens : List Token) : Nat :=
  nestingFrom [] tokens

/-- Whether a token may stand in a selector, and neither opens nor closes a function
there. -/
def isFlat (token : Token) : Bool :=
  match token.kind with
  | .function _ | .rightParen | .endOfInput | .badString | .delim '\\' => false
  | _ => true

private theorem count_le_nestingFrom (opened : List Bool) (tokens : List Token) :
    opened.count true ≤ nestingFrom opened tokens := by
  cases tokens with
  | nil => exact Nat.le_refl _
  | cons token rest => exact Nat.le_max_left _ _

private theorem openBehind_of_isFlat {token : Token} (flat : token.isFlat = true)
    (opened : List Bool) : openBehind opened token = opened := by
  unfold openBehind
  split
  · rename_i kind
    rw [isFlat, kind] at flat
    cases flat
  · rename_i kind
    rw [isFlat, kind] at flat
    cases flat
  · rfl

end Token

namespace Grammar

open Token

/-- The tokens close every function that they open, arguments nest to a depth
within them, and the text goes on behind them. -/
structure Nests (segment : List Token) (depth : Nat) : Prop where
  nestingFrom_append (opened : List Bool) (rest : List Token) :
    nestingFrom opened (segment ++ rest) =
      max (opened.count true + depth) (nestingFrom opened rest)
  goesOn : ∀ token ∈ segment, token.kind ≠ .endOfInput

namespace Nests

variable {segment first second : List Token} {depth firstDepth secondDepth : Nat}

theorem nil : Nests [] 0 where
  nestingFrom_append opened rest :=
    (Nat.max_eq_right (count_le_nestingFrom opened rest)).symm
  goesOn := by simp

theorem append (head : Nests first firstDepth) (tail : Nests second secondDepth) :
    Nests (first ++ second) (max firstDepth secondDepth) where
  nestingFrom_append opened rest := by
    rw [List.append_assoc, head.nestingFrom_append, tail.nestingFrom_append]
    omega
  goesOn token member :=
    (List.mem_append.mp member).elim (head.goesOn token) (tail.goesOn token)

theorem single {token : Token} (flat : token.isFlat = true) : Nests [token] 0 where
  nestingFrom_append opened rest := by
    rw [List.singleton_append, nestingFrom, openBehind_of_isFlat flat]
    rfl
  goesOn other member := by
    rw [List.mem_singleton.mp member]
    intro kind
    rw [isFlat, kind] at flat
    cases flat

/-- An argument between its function and the closing parenthesis. -/
theorem function {token close : Token} {name : String} {list : List Token}
    (kind : token.kind = .function name) (inner : Nests list depth)
    (closes : close.kind = .rightParen) :
    Nests (token :: (list ++ [close]))
      ((SelectorFunction.ofName? (Text.foldCase name)).isSome.toNat + depth) where
  nestingFrom_append opened rest := by
    have opening : openBehind opened token =
        (SelectorFunction.ofName? (Text.foldCase name)).isSome :: opened := by
      rw [openBehind, kind]
    have closing (outer : List Bool) : openBehind outer close = outer.tail := by
      rw [openBehind, closes]
    have bounded := count_le_nestingFrom opened rest
    rw [List.cons_append, List.append_assoc, nestingFrom, opening,
      inner.nestingFrom_append, List.singleton_append, nestingFrom, closing]
    cases (SelectorFunction.ofName? (Text.foldCase name)).isSome with
    | false =>
        simp only [List.tail_cons, List.count_cons, Bool.toNat_false, beq_true,
          Bool.false_eq_true, if_false]
        omega
    | true =>
        simp only [List.tail_cons, List.count_cons, Bool.toNat_true, beq_true, if_true]
        omega
  goesOn other member := by
    rcases List.mem_cons.mp member with rfl | member
    · simp [kind]
    · rcases List.mem_append.mp member with member | member
      · exact inner.goesOn other member
      · rw [List.mem_singleton.mp member, closes]
        simp

theorem nesting_eq (nests : Nests segment depth) : nesting segment = depth := by
  have whole := nests.nestingFrom_append [] []
  simpa [nesting, nestingFrom] using whole

/-- The end of a text adds nothing. -/
theorem nesting_append (nests : Nests segment depth) {stop : Token}
    (stops : stop.kind = .endOfInput) : nesting (segment ++ [stop]) = depth := by
  have whole := nests.nestingFrom_append [] [stop]
  simpa [nesting, nestingFrom, openBehind, stops] using whole

end Nests

/-! ## Flat segments -/

/-- No token opens or closes a function, and no pseudo-class is called. -/
def Flat (segment : List Token) : Prop :=
  ∀ token ∈ segment, token.isFlat = true ∧ token.kind ≠ .colon

@[simp] theorem flat_append_iff {first second : List Token} :
    Flat (first ++ second) ↔ Flat first ∧ Flat second :=
  List.forall_mem_append

@[simp] theorem flat_cons_iff {token : Token} {rest : List Token} :
    Flat (token :: rest) ↔
      (token.isFlat = true ∧ token.kind ≠ .colon) ∧ Flat rest :=
  List.forall_mem_cons

@[simp] theorem flat_nil : Flat [] := by
  simp [Flat]

theorem Blank.flat {blank : List Token} (isBlank : Blank blank) : Flat blank := by
  intro token member
  simp [isFlat, isBlank token member]

theorem isFlat_of_operatorOf? {token : Token} {char : Char}
    {operator : AttributeOperator} (kind : token.kind = .delim char)
    (known : Selector.Parser.operatorOf? char = some operator) :
    token.isFlat = true := by
  unfold isFlat
  rw [kind]
  split
  all_goals simp_all [Selector.Parser.operatorOf?]

theorem Operator.flat {segment : List Token} {operator : AttributeOperator}
    (derived : Operator segment operator) : Flat segment := by
  cases derived with
  | equals kind => simp [isFlat, kind]
  | signed kind known closing =>
      refine flat_cons_iff.mpr ⟨⟨isFlat_of_operatorOf? kind known, by simp [kind]⟩, ?_⟩
      simp [isFlat, closing]

theorem Flag.flat {segment : List Token} {case : CaseFlag}
    (derived : Flag segment case) : Flat segment := by
  cases derived with
  | unstated => exact flat_nil
  | insensitive kind _ isBlank => simp [isFlat, kind, isBlank.flat]
  | sensitive kind _ isBlank => simp [isFlat, kind, isBlank.flat]

theorem Comparison.flat {name : String} {segment : List Token}
    {test : AttributeTest} (derived : Comparison name segment test) :
    Flat segment := by
  cases derived with
  | @compare _ _ _ _ token _ value _ sign firstBlank kind secondBlank flag =>
      have flat : token.isFlat = true ∧ token.kind ≠ .colon := by
        rcases kind with kind | kind <;> simp [isFlat, kind]
      simp [sign.flat, firstBlank.flat, flat, secondBlank.flat, flag.flat]

theorem Attribute.flat {segment : List Token} {test : AttributeTest}
    (derived : Attribute segment test) : Flat segment := by
  cases derived with
  | present firstBlank kind secondBlank closes =>
      simp [firstBlank.flat, secondBlank.flat, isFlat, kind, closes]
  | comparison firstBlank kind secondBlank compared closes =>
      simp [firstBlank.flat, secondBlank.flat, compared.flat, isFlat, kind, closes]

theorem Sign.flat {token : Token} {combinator : Combinator}
    (sign : Sign token combinator) : Flat [token] := by
  cases sign with
  | child kind => simp [isFlat, kind]
  | nextSibling kind => simp [isFlat, kind]
  | laterSibling kind => simp [isFlat, kind]

theorem Separator.flat {segment : List Token} {combinator : Combinator}
    (derived : Separator segment combinator) : Flat segment := by
  cases derived with
  | signed firstBlank sign secondBlank =>
      have signFlat := flat_cons_iff.mp sign.flat
      simp [firstBlank.flat, signFlat, secondBlank.flat]
  | descendant isBlank => exact isBlank.flat

theorem Anchor.flat {relative : Bool} {segment : List Token}
    {anchor : Option Combinator} (derived : Anchor relative segment anchor) :
    Flat segment := by
  cases derived with
  | none => exact flat_nil
  | implied => exact flat_nil
  | signed sign isBlank => exact flat_append_iff.mpr ⟨sign.flat, isBlank.flat⟩

theorem flat_of_isFormulaPart {segment : List Token}
    (parts : ∀ token ∈ segment, Selector.Parser.isFormulaPart token.kind = true) :
    Flat segment := by
  intro token member
  have part := parts token member
  unfold Selector.Parser.isFormulaPart at part
  unfold isFlat
  split at part
  all_goals simp_all

theorem Flat.nests {segment : List Token} (flat : Flat segment) :
    Nests segment 0 := by
  induction segment with
  | nil => exact .nil
  | cons token rest induction =>
      obtain ⟨⟨isFlat, -⟩, flat⟩ := flat_cons_iff.mp flat
      exact (Nests.single isFlat).append (induction flat)

theorem Flat.calls {segment : List Token} (flat : Flat segment) : Calls segment [] :=
  .of_no_colon fun token member => (flat token member).2

end Grammar

end TreeSelectors
