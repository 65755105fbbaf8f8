import TreeSelectors.Selector.Parser

/-!
# The grammar of selector text

The grammar is a family of relations between segments of a token list and the
syntax that they stand for.  Nothing in it looks ahead: a segment has a
derivation or has none, wherever it stands.

Aliases may be looked up in a source that learns while it is asked, so every
relation with pseudo-classes in it leads from what was known in front of the
segment to what is known after it.
-/

namespace TreeSelectors

namespace Grammar

/-- Any number of white space tokens. -/
def Blank (tokens : List Token) : Prop :=
  ∀ token ∈ tokens, token.kind = .whitespace

/-! ## Attribute tests -/

inductive Operator : List Token → AttributeOperator → Prop where
  | equals {token : Token} :
      token.kind = .delim '=' → Operator [token] .equals
  | signed {sign equals : Token} {char : Char} {operator : AttributeOperator} :
      sign.kind = .delim char → Selector.Parser.operatorOf? char = some operator →
      equals.kind = .delim '=' → Operator [sign, equals] operator

inductive Flag : List Token → CaseFlag → Prop where
  | unstated : Flag [] .unstated
  | insensitive {token : Token} {name : String} {blank : List Token} :
      token.kind = .ident name → Text.sameFolded name "i" = true →
      Blank blank → Flag (token :: blank) .insensitive
  | sensitive {token : Token} {name : String} {blank : List Token} :
      token.kind = .ident name → Text.sameFolded name "s" = true →
      Blank blank → Flag (token :: blank) .sensitive

/-- What stands between a name and the closing bracket. -/
inductive Comparison (name : String) : List Token → AttributeTest → Prop where
  | compare {sign first second flags : List Token} {token : Token}
      {operator : AttributeOperator} {value : String} {case : CaseFlag} :
      Operator sign operator → Blank first →
      token.kind = .ident value ∨ token.kind = .string value → Blank second →
      Flag flags case →
      Comparison name (sign ++ first ++ token :: second ++ flags)
        { name, operator, value := some value, case }

/-- An attribute test after its opening bracket. -/
inductive Attribute : List Token → AttributeTest → Prop where
  | present {first second : List Token} {token close : Token} {name : String} :
      Blank first → token.kind = .ident name → Blank second →
      close.kind = .rightBracket →
      Attribute (first ++ token :: second ++ [close]) (.present name)
  | comparison {first second rest : List Token} {token close : Token}
      {name : String} {test : AttributeTest} :
      Blank first → token.kind = .ident name → Blank second →
      Comparison name rest test → close.kind = .rightBracket →
      Attribute (first ++ token :: second ++ rest ++ [close]) test

/-- A formula up to its closing parenthesis. -/
inductive Formula : List Token → Nth → Prop where
  | parts {tokens : List Token} {close : Token} {formula : Nth} :
      (∀ token ∈ tokens, Selector.Parser.isFormulaPart token.kind = true) →
      close.kind = .rightParen →
      Nth.parse (tokens.flatMap Token.text) = some formula →
      Formula (tokens ++ [close]) formula

section

variable {σ : Type}

/-- What a derivation depends on: the aliases, and which segments are arguments
of functional pseudo-classes. -/
structure Setting (σ : Type) where
  aliases : AliasSource σ
  /-- `argument relative known tokens selector later`: the tokens up to the
  closing parenthesis, which is one of them. -/
  argument : Bool → σ → List Token → Selector → σ → Prop

/-! ## Conditions -/

/-- What stands after a colon. -/
inductive Pseudo (setting : Setting σ) :
    σ → List Token → Simple → σ → Prop where
  | element {known : σ} {colon token : Token} {name : String} :
      colon.kind = .colon → token.kind = .ident name →
      Pseudo setting known [colon, token] (.pseudoElement (Text.foldCase name))
        known
  | legacyElement {known : σ} {token : Token} {name : String} :
      token.kind = .ident name →
      Selector.Parser.isLegacyPseudoElement (Text.foldCase name) = true →
      Pseudo setting known [token] (.pseudoElement (Text.foldCase name)) known
  | plain {known : σ} {token : Token} {name : String} {plain : PlainClass} :
      token.kind = .ident name →
      PlainClass.ofName? (Text.foldCase name) = some plain →
      Pseudo setting known [token] (.plain plain) known
  | abbreviation {known later : σ} {token : Token} {name : String}
      {selector : Selector} :
      token.kind = .ident name →
      PlainClass.ofName? (Text.foldCase name) = none →
      Selector.Parser.isLegacyPseudoElement (Text.foldCase name) = false →
      SelectorFunction.ofName? (Text.foldCase name) = none →
      Counting.ofName? (Text.foldCase name) = none →
      (setting.aliases.expand (Text.foldCase name)).run known =
        .ok (some selector, later) →
      Pseudo setting known [token] (.functional .is selector) later
  | nth {known : σ} {token : Token} {name : String} {counting : Counting}
      {tokens : List Token} {formula : Nth} :
      token.kind = .function name →
      Counting.ofName? (Text.foldCase name) = some counting →
      Formula tokens formula →
      Pseudo setting known (token :: tokens) (.nth counting formula) known
  | functional {known later : σ} {token : Token} {name : String}
      {function : SelectorFunction} {tokens : List Token} {selector : Selector} :
      token.kind = .function name →
      SelectorFunction.ofName? (Text.foldCase name) = some function →
      setting.argument (function = .has) known tokens selector later →
      Pseudo setting known (token :: tokens) (.functional function selector) later

/-- A condition that may stand anywhere in a compound. -/
inductive Condition (setting : Setting σ) :
    σ → List Token → Simple → σ → Prop where
  | id {known : σ} {token : Token} {name : String} :
      token.kind = .hash name → token.startsWithDigit 1 = false →
      Condition setting known [token] (.id name) known
  | className {known : σ} {dot token : Token} {name : String} :
      dot.kind = .delim '.' → token.kind = .ident name →
      token.startsWithDigit 0 = false →
      Condition setting known [dot, token] (.className name) known
  | attribute {known : σ} {bracket : Token} {tokens : List Token}
      {test : AttributeTest} :
      bracket.kind = .leftBracket → Attribute tokens test →
      Condition setting known (bracket :: tokens) (.attribute test) known
  | pseudo {known later : σ} {colon : Token} {tokens : List Token}
      {simple : Simple} :
      colon.kind = .colon → Pseudo setting known tokens simple later →
      Condition setting known (colon :: tokens) simple later

/-- The first condition of a compound. -/
inductive First (setting : Setting σ) :
    σ → List Token → Simple → σ → Prop where
  | type {known : σ} {token : Token} {name : String} :
      token.kind = .ident name → token.startsWithDigit 0 = false →
      First setting known [token] (.type name) known
  | universal {known : σ} {token : Token} :
      token.kind = .delim '*' → First setting known [token] .universal known
  | condition {known later : σ} {tokens : List Token} {simple : Simple} :
      Condition setting known tokens simple later →
      First setting known tokens simple later

inductive Conditions (setting : Setting σ) :
    σ → List Token → List Simple → σ → Prop where
  | nil {known : σ} : Conditions setting known [] [] known
  | cons {known between later : σ} {first rest : List Token} {simple : Simple}
      {more : List Simple} :
      Condition setting known first simple between →
      Conditions setting between rest more later →
      Conditions setting known (first ++ rest) (simple :: more) later

/-- A compound is a run of conditions without a gap. -/
inductive CompoundOf (setting : Setting σ) :
    σ → List Token → Compound → σ → Prop where
  | conditions {known between later : σ} {first rest : List Token}
      {simple : Simple} {more : List Simple} :
      First setting known first simple between →
      Conditions setting between rest more later →
      CompoundOf setting known (first ++ rest) (simple :: more) later

/-! ## Chains and lists -/

inductive Sign : Token → Combinator → Prop where
  | child {token : Token} : token.kind = .delim '>' → Sign token .child
  | nextSibling {token : Token} : token.kind = .delim '+' → Sign token .nextSibling
  | laterSibling {token : Token} :
      token.kind = .delim '~' → Sign token .laterSibling

/-- What stands between two compounds. -/
inductive Separator : List Token → Combinator → Prop where
  | signed {first second : List Token} {token : Token} {combinator : Combinator} :
      Blank first → Sign token combinator → Blank second →
      Separator (first ++ token :: second) combinator
  | descendant {blank : List Token} :
      Blank blank → blank ≠ [] → Separator blank .descendant

/-- The compounds after one of a chain.  Each takes the place of the subject;
those on its left are kept with the combinators between them. -/
inductive Links (setting : Setting σ) :
    σ → Compound → List (Combinator × Compound) → List Token →
      Compound → List (Combinator × Compound) → σ → Prop where
  | nil {known : σ} {subject : Compound} {left : List (Combinator × Compound)} :
      Links setting known subject left [] subject left known
  | cons {known between later : σ} {subject next final : Compound}
      {left leftmost : List (Combinator × Compound)}
      {separator tokens rest : List Token} {combinator : Combinator} :
      Separator separator combinator →
      CompoundOf setting known tokens next between →
      Links setting between next ((combinator, subject) :: left) rest final
        leftmost later →
      Links setting known subject left (separator ++ tokens ++ rest) final
        leftmost later

/-- The combinator in front of a chain.  Only chains of a relative selector have
one, and there descendance is implied. -/
inductive Anchor : (relative : Bool) → List Token → Option Combinator → Prop where
  | none : Anchor false [] none
  | implied : Anchor true [] (some .descendant)
  | signed {token : Token} {blank : List Token} {combinator : Combinator} :
      Sign token combinator → Blank blank →
      Anchor true (token :: blank) (some combinator)

inductive ChainOf (setting : Setting σ) (relative : Bool) :
    σ → List Token → Chain → σ → Prop where
  | links {known between later : σ} {start tokens rest : List Token}
      {anchor : Option Combinator} {first subject : Compound}
      {left : List (Combinator × Compound)} :
      Anchor relative start anchor →
      CompoundOf setting known tokens first between →
      Links setting between first [] rest subject left later →
      ChainOf setting relative known (start ++ tokens ++ rest)
        ⟨subject, left, anchor⟩ later

/-- Chains with commas between them, and white space around each. -/
inductive ListOf (setting : Setting σ) (relative : Bool) :
    σ → List Token → Selector → σ → Prop where
  | single {known later : σ} {first tokens last : List Token} {chain : Chain} :
      Blank first → ChainOf setting relative known tokens chain later →
      Blank last →
      ListOf setting relative known (first ++ tokens ++ last) [chain] later
  | cons {known between later : σ} {first tokens last rest : List Token}
      {comma : Token} {chain : Chain} {more : Selector} :
      Blank first → ChainOf setting relative known tokens chain between →
      Blank last → comma.kind = .comma →
      ListOf setting relative between rest more later →
      ListOf setting relative known (first ++ tokens ++ last ++ comma :: rest)
        (chain :: more) later

/-- The arguments in which further ones nest less than `levels` deep. -/
def Argument (aliases : AliasSource σ) : (levels : Nat) →
    (relative : Bool) → σ → List Token → Selector → σ → Prop
  | 0, _, _, _, _, _ => False
  | levels + 1, relative, known, tokens, selector, later =>
      ∃ list close, tokens = list ++ [close] ∧ close.kind = .rightParen ∧
        ListOf ⟨aliases, Argument aliases levels⟩ relative known list selector
          later

/-- A whole selector in which arguments nest at most `levels` deep. -/
def Whole (aliases : AliasSource σ) (levels : Nat) :
    σ → List Token → Selector → σ → Prop :=
  ListOf ⟨aliases, Argument aliases levels⟩ false

end

end Grammar

end TreeSelectors
