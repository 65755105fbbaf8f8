import TreeSelectors.Proofs.Selector.Nesting

/-!
# What tokens leave open, and which names they prefix

From the tokens of a text alone one can tell which functions are still open behind them,
and how many colons stand right in front of each name.  The former says what is missing
where a text ends too early, the latter what is remarked on.  A reader passes a segment
if it closes every function that it opens and makes the remarks that the names in the
segment deserve.
-/

namespace TreeSelectors

namespace Token

/-! ## Open functions -/

/-- The functions that are open behind a token, the innermost in front. -/
def unclosedBehind (opened : List Token) (token : Token) : List Token :=
  match token.kind with
  | .function _ => token :: opened
  | .rightParen => opened.tail
  | _ => opened

/-- The functions that are open behind some tokens, if others are open in front of
them. -/
def unclosedFrom (opened tokens : List Token) : List Token :=
  tokens.foldl unclosedBehind opened

/-- The functions that some tokens open and do not close, the innermost in front. -/
def unclosed (tokens : List Token) : List Token :=
  unclosedFrom [] tokens

theorem unclosedFrom_append (opened first second : List Token) :
    unclosedFrom opened (first ++ second) =
      unclosedFrom (unclosedFrom opened first) second :=
  List.foldl_append

theorem unclosedFrom_function {token : Token} {name : String}
    (kind : token.kind = .function name) (opened rest : List Token) :
    unclosedFrom opened (token :: rest) = unclosedFrom (token :: opened) rest := by
  simp only [unclosedFrom, List.foldl_cons, unclosedBehind, kind]

private theorem unclosedFrom_rightParen {token : Token} (kind : token.kind = .rightParen)
    (opened rest : List Token) :
    unclosedFrom opened (token :: rest) = unclosedFrom opened.tail rest := by
  simp only [unclosedFrom, List.foldl_cons, unclosedBehind, kind]

private theorem unclosedBehind_of_isFlat {token : Token} (flat : token.isFlat = true)
    (opened : List Token) : unclosedBehind opened token = opened := by
  unfold unclosedBehind
  split
  · rename_i kind
    simp [isFlat, kind] at flat
  · rename_i kind
    simp [isFlat, kind] at flat
  · rfl

theorem unclosedFrom_of_isFlat {token : Token} (flat : token.isFlat = true)
    (opened rest : List Token) :
    unclosedFrom opened (token :: rest) = unclosedFrom opened rest := by
  rw [unclosedFrom, List.foldl_cons, unclosedBehind_of_isFlat flat, unclosedFrom]

private theorem mem_of_mem_unclosedBehind {opened : List Token} {token function : Token}
    (member : function ∈ unclosedBehind opened token) :
    (function = token ∧ ∃ name, function.kind = .function name) ∨ function ∈ opened := by
  unfold unclosedBehind at member
  split at member
  · rename_i name kind
    rcases List.mem_cons.mp member with rfl | earlier
    · exact .inl ⟨rfl, name, kind⟩
    · exact .inr earlier
  · exact .inr (List.mem_of_mem_tail member)
  · exact .inr member

private theorem mem_of_mem_unclosedFrom {opened tokens : List Token} {function : Token}
    (member : function ∈ unclosedFrom opened tokens) :
    (function ∈ tokens ∧ ∃ name, function.kind = .function name) ∨
      function ∈ opened := by
  induction tokens generalizing opened with
  | nil => exact .inr member
  | cons token rest induction =>
      rcases induction member with ⟨later, kind⟩ | behind
      · exact .inl ⟨List.mem_cons_of_mem _ later, kind⟩
      · rcases mem_of_mem_unclosedBehind behind with ⟨rfl, kind⟩ | earlier
        · exact .inl ⟨List.mem_cons_self, kind⟩
        · exact .inr earlier

/-- Only functions among the tokens are left open. -/
theorem mem_of_mem_unclosed {tokens : List Token} {function : Token}
    (member : function ∈ unclosed tokens) :
    function ∈ tokens ∧ ∃ name, function.kind = .function name :=
  (mem_of_mem_unclosedFrom member).resolve_right List.not_mem_nil

/-- The end of a text closes nothing. -/
theorem unclosed_append_end {stop : Token} (stops : stop.kind = .endOfInput)
    (tokens : List Token) : unclosed (tokens ++ [stop]) = unclosed tokens := by
  rw [unclosed, unclosedFrom_append]
  simp [unclosedFrom, unclosedBehind, stops, unclosed]

/-! ## Names behind colons -/

/-- The names among some tokens, without regard to case, each with the number of colons
right in front of it.  In front of the first token stand some colons already. -/
def prefixedFrom (colons : Nat) : List Token → List (Nat × String)
  | [] => []
  | token :: rest =>
      match token.kind with
      | .colon => prefixedFrom (colons + 1) rest
      | .ident name => (colons, Text.foldCase name) :: prefixedFrom 0 rest
      | _ => prefixedFrom 0 rest

def prefixed (tokens : List Token) : List (Nat × String) :=
  prefixedFrom 0 tokens

private theorem prefixedFrom_colon {token : Token} (kind : token.kind = .colon)
    (colons : Nat)
    (rest : List Token) :
    prefixedFrom colons (token :: rest) = prefixedFrom (colons + 1) rest := by
  rw [prefixedFrom, kind]

private theorem prefixedFrom_ident {token : Token} {name : String}
    (kind : token.kind = .ident name) (colons : Nat) (rest : List Token) :
    prefixedFrom colons (token :: rest) =
      (colons, Text.foldCase name) :: prefixed rest := by
  rw [prefixedFrom, kind, prefixed]

private theorem prefixedFrom_other {token : Token} (notColon : token.kind ≠ .colon)
    (notName : ∀ name, token.kind ≠ .ident name) (colons : Nat) (rest : List Token) :
    prefixedFrom colons (token :: rest) = prefixed rest := by
  rw [prefixedFrom]
  split
  · exact absurd ‹_› notColon
  · exact absurd ‹_› (notName _)
  · rfl

end Token

/-- What is remarked on a name with a number of colons in front. -/
def Remark.ofPrefixed? : Nat × String → Option Remark
  | (1, name) =>
      if (PlainClass.ofName? name).any PlainClass.isUserAction then
        some (.inert name)
      else if Selector.Parser.isLegacyPseudoElement name then
        some (.pseudoElement name)
      else
        none
  | (2, name) => some (.pseudoElement name)
  | _ => none

namespace Grammar

open Token

/-! ## Segments -/

/-- Every function that the tokens open is closed by them, and no other one is. -/
def Closes (segment : List Token) : Prop :=
  ∀ opened, unclosedFrom opened segment = opened

/-- The tokens deserve the given remarks, whatever stands behind them. -/
def Deserves (segment : List Token) (notes : List Remark) : Prop :=
  ∃ names, names.filterMap Remark.ofPrefixed? = notes ∧
    ∀ rest, prefixed (segment ++ rest) = names ++ prefixed rest

/-- A reader that has read a segment has closed what it opened, and has added the remarks
that the segment deserves to those before. -/
structure Passes (segment : List Token) (before after : List Remark) : Prop where
  closes : Closes segment
  remarks : ∃ notes, Deserves segment notes ∧ after = before ++ notes

variable {segment first second list : List Token} {notes others before between after :
  List Remark} {colon token : Token} {name : String}

namespace Deserves

theorem nil : Deserves [] [] :=
  ⟨[], rfl, fun _ => rfl⟩

theorem append (head : Deserves first notes) (tail : Deserves second others) :
    Deserves (first ++ second) (notes ++ others) := by
  obtain ⟨names, rfl, splits⟩ := head
  obtain ⟨more, rfl, continues⟩ := tail
  refine ⟨names ++ more, List.filterMap_append, fun rest => ?_⟩
  rw [List.append_assoc, splits, continues, List.append_assoc]

/-- A token that is no colon deserves nothing by itself. -/
theorem single (notColon : token.kind ≠ .colon) : Deserves [token] [] := by
  cases kind : token.kind with
  | ident name =>
      exact ⟨[(0, Text.foldCase name)], rfl, prefixedFrom_ident kind 0⟩
  | colon => exact absurd kind notColon
  | _ => exact ⟨[], rfl, prefixedFrom_other notColon (by simp [kind]) 0⟩

theorem of_no_colon (quiet : ∀ token ∈ segment, token.kind ≠ .colon) :
    Deserves segment [] := by
  induction segment with
  | nil => exact .nil
  | cons token rest induction =>
      obtain ⟨notColon, quiet⟩ := List.forall_mem_cons.mp quiet
      exact (single notColon).append (induction quiet)

/-- A name behind a colon. -/
theorem ident (colonKind : colon.kind = .colon) (kind : token.kind = .ident name) :
    Deserves [colon, token] (Remark.ofPrefixed? (1, Text.foldCase name)).toList := by
  refine ⟨[(1, Text.foldCase name)], ?_, fun rest => ?_⟩
  · cases found : Remark.ofPrefixed? (1, Text.foldCase name) with
    | none => simp [found]
    | some note => simp [found]
  · exact (prefixedFrom_colon colonKind 0 _).trans (prefixedFrom_ident kind 1 rest)

/-- A name behind two colons. -/
theorem element {other : Token} (colonKind : colon.kind = .colon)
    (otherKind : other.kind = .colon) (kind : token.kind = .ident name) :
    Deserves [colon, other, token] [.pseudoElement (Text.foldCase name)] := by
  refine ⟨[(2, Text.foldCase name)], rfl, fun rest => ?_⟩
  exact (prefixedFrom_colon colonKind 0 _).trans
    ((prefixedFrom_colon otherKind 1 _).trans (prefixedFrom_ident kind 2 rest))

/-- A function behind a colon. -/
theorem function (colonKind : colon.kind = .colon) (kind : token.kind = .function name)
    (deserves : Deserves (token :: segment) notes) :
    Deserves (colon :: token :: segment) notes := by
  obtain ⟨names, rfl, splits⟩ := deserves
  refine ⟨names, rfl, fun rest => (prefixedFrom_colon colonKind 0 _).trans ?_⟩
  rw [← splits]
  have other (colons : Nat) :
      prefixedFrom colons (token :: (segment ++ rest)) = prefixed (segment ++ rest) :=
    prefixedFrom_other (by simp [kind]) (by simp [kind]) colons _
  exact (other 1).trans (other 0).symm

theorem eq (deserves : Deserves segment notes) :
    notes = (prefixed segment).filterMap Remark.ofPrefixed? := by
  obtain ⟨names, rfl, splits⟩ := deserves
  have whole := splits []
  have ended : prefixed [] = [] := rfl
  rw [List.append_nil, ended, List.append_nil] at whole
  rw [whole]

end Deserves

theorem closes_of_isFlat (flat : ∀ token ∈ segment, token.isFlat = true) :
    Closes segment := by
  intro opened
  induction segment with
  | nil => rfl
  | cons token rest induction =>
      obtain ⟨first, flat⟩ := List.forall_mem_cons.mp flat
      rw [unclosedFrom_of_isFlat first]
      exact induction flat

theorem Flat.closes (flat : Flat segment) : Closes segment :=
  closes_of_isFlat fun token member => (flat token member).1

namespace Passes

theorem nil : Passes [] before before where
  closes _ := rfl
  remarks := ⟨[], .nil, (List.append_nil _).symm⟩

theorem append (head : Passes first before between) (tail : Passes second between after) :
    Passes (first ++ second) before after where
  closes opened := by rw [unclosedFrom_append, head.closes, tail.closes]
  remarks := by
    obtain ⟨notes, deserves, rfl⟩ := head.remarks
    obtain ⟨others, continues, rfl⟩ := tail.remarks
    exact ⟨_, deserves.append continues, List.append_assoc _ _ _⟩

/-- Segments without functions and colons go by. -/
theorem of_flat (flat : Flat segment) : Passes segment before before where
  closes := flat.closes
  remarks := ⟨[], .of_no_colon fun token member => (flat token member).2,
    (List.append_nil _).symm⟩

/-- An argument between its function and the closing parenthesis. -/
theorem argument {close : Token} (kind : token.kind = .function name)
    (inner : Passes list before after) (closing : close.kind = .rightParen) :
    Passes (token :: (list ++ [close])) before after where
  closes opened := by
    rw [unclosedFrom_function kind, unclosedFrom_append, inner.closes,
      unclosedFrom_rightParen closing]
    rfl
  remarks := by
    obtain ⟨notes, deserves, rfl⟩ := inner.remarks
    refine ⟨notes, ?_, rfl⟩
    have opening : Deserves [token] [] := .single (by simp [kind])
    have ending : Deserves [close] [] := .single (by simp [closing])
    have whole := opening.append (deserves.append ending)
    rwa [List.nil_append, List.append_nil] at whole

/-- A function with its argument behind a colon. -/
theorem function (colonKind : colon.kind = .colon) (kind : token.kind = .function name)
    (passes : Passes (token :: segment) before after) :
    Passes (colon :: token :: segment) before after where
  closes opened := by
    have flat : colon.isFlat = true := by rw [isFlat, colonKind]
    rw [unclosedFrom_of_isFlat flat]
    exact passes.closes opened
  remarks := by
    obtain ⟨notes, deserves, rfl⟩ := passes.remarks
    exact ⟨notes, .function colonKind kind deserves, rfl⟩

/-- A name behind a colon. -/
theorem ident (colonKind : colon.kind = .colon) (kind : token.kind = .ident name) :
    Passes [colon, token] before
      (before ++ (Remark.ofPrefixed? (1, Text.foldCase name)).toList) where
  closes := closes_of_isFlat (by simp [isFlat, colonKind, kind])
  remarks := ⟨_, .ident colonKind kind, rfl⟩

/-- A name behind two colons. -/
theorem element {other : Token} (colonKind : colon.kind = .colon)
    (otherKind : other.kind = .colon) (kind : token.kind = .ident name) :
    Passes [colon, other, token] before
      (before ++ [.pseudoElement (Text.foldCase name)]) where
  closes := closes_of_isFlat (by simp [isFlat, colonKind, otherKind, kind])
  remarks := ⟨_, .element colonKind otherKind kind, rfl⟩

end Passes

end Grammar

end TreeSelectors
