import TreeSelectors.Proofs.Selector.Grammar

/-!
# The aliases that a text calls

A name behind a single colon is looked up among the aliases unless it has a meaning of
its own.  Which names a text looks up can be told from its tokens alone, segment by
segment.
-/

namespace TreeSelectors

namespace Token

/-- Whether a name behind a colon has no meaning of its own. -/
def mayAbbreviate (name : String) : Bool :=
  (PlainClass.ofName? name).isNone && !Selector.Parser.isLegacyPseudoElement name

/-- The names that are looked up among the aliases, as often as they are. -/
def called : List Token → List String
  | first :: second :: rest =>
      match first.kind, second.kind with
      | .colon, .ident name =>
          [Text.foldCase name].filter mayAbbreviate ++ called rest
      | .colon, _ => called rest
      | _, _ => called (second :: rest)
  | _ => []

theorem called_cons {token : Token} (kind : token.kind ≠ .colon) (rest : List Token) :
    called (token :: rest) = called rest := by
  cases rest with
  | nil => rfl
  | cons second rest =>
      rw [called]
      split
      · exact absurd ‹_› kind
      · exact absurd ‹_› kind
      · rfl

theorem called_ident {colon token : Token} {name : String}
    (colonKind : colon.kind = .colon) (kind : token.kind = .ident name)
    (rest : List Token) :
    called (colon :: token :: rest) =
      [Text.foldCase name].filter mayAbbreviate ++ called rest := by
  rw [called, colonKind, kind]

theorem called_of_not_ident {colon token : Token} (colonKind : colon.kind = .colon)
    (kind : ∀ name, token.kind ≠ .ident name) (rest : List Token) :
    called (colon :: token :: rest) = called rest := by
  rw [called, colonKind]
  cases second : token.kind with
  | ident name => exact absurd second (kind name)
  | _ => rfl

end Token

namespace Grammar

open Token

/-- The tokens look up the given names, whatever stands behind them. -/
def Calls (segment : List Token) (names : List String) : Prop :=
  ∀ rest, called (segment ++ rest) = names ++ called rest

namespace Calls

variable {segment first second : List Token} {names firstNames secondNames : List String}
  {colon token : Token} {name : String}

theorem append (head : Calls first firstNames) (tail : Calls second secondNames) :
    Calls (first ++ second) (firstNames ++ secondNames) := by
  intro rest
  rw [List.append_assoc, head, tail, List.append_assoc]

theorem of_no_colon (quiet : ∀ token ∈ segment, token.kind ≠ .colon) :
    Calls segment [] := by
  intro rest
  induction segment with
  | nil => rfl
  | cons token others induction =>
      obtain ⟨kind, quiet⟩ := List.forall_mem_cons.mp quiet
      rw [List.cons_append, called_cons kind, induction quiet]

/-- A name behind a colon. -/
theorem ident (colonKind : colon.kind = .colon) (kind : token.kind = .ident name) :
    Calls [colon, token] ([Text.foldCase name].filter mayAbbreviate) :=
  called_ident colonKind kind

/-- A name behind two colons. -/
theorem element {other : Token} (colonKind : colon.kind = .colon)
    (otherKind : other.kind = .colon) (kind : token.kind = .ident name) :
    Calls [colon, other, token] [] := by
  intro rest
  rw [List.cons_append, List.cons_append,
    called_of_not_ident colonKind (by simp [otherKind]), List.singleton_append,
    called_cons (by simp [kind])]
  rfl

/-- A function behind a colon. -/
theorem function (colonKind : colon.kind = .colon) (kind : token.kind = .function name)
    (calls : Calls (token :: segment) names) :
    Calls (colon :: token :: segment) names := by
  intro rest
  have inner := calls rest
  rw [List.cons_append, called_cons (by simp [kind])] at inner
  rw [List.cons_append, List.cons_append,
    called_of_not_ident colonKind (by simp [kind]), inner]

/-- An argument between its function and the closing parenthesis. -/
theorem argument {close : Token} (kind : token.kind = .function name)
    (inner : Calls segment names) (closes : close.kind = .rightParen) :
    Calls (token :: (segment ++ [close])) names := by
  intro rest
  rw [List.cons_append, called_cons (by simp [kind]), List.append_assoc, inner,
    List.singleton_append, called_cons (by simp [closes])]

theorem called_eq (calls : Calls segment names) : called segment = names := by
  have whole := calls []
  have ended : called [] = [] := rfl
  rwa [List.append_nil, ended, List.append_nil] at whole

end Calls

end Grammar

end TreeSelectors
