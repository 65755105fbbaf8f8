import TreeSelectors.Selector
import TreeSelectors.Text.Ascii

/-!
# Well-formed selectors

The selectors that text can stand for: no list and no compound is empty, a type
and the universal condition stand only in front, and exactly the chains of an
argument of `:has()` have an anchor.
-/

namespace TreeSelectors

/-- A test compares exactly if it has a value, and only then has a case flag. -/
def AttributeTest.Formed (test : AttributeTest) : Prop :=
  match test.value with
  | none => test.operator = .present ∧ test.case = .unstated
  | some _ => test.operator ≠ .present

/-- Whether a condition may only stand in front of a compound. -/
def Simple.isLeading : Simple → Bool
  | .type _ | .universal => true
  | _ => false

mutual

def Simple.Formed : Simple → Prop
  | .attribute test => test.Formed
  | .functional function argument =>
      argument ≠ [] ∧ Selector.Formed (function = .has) argument
  | .pseudoElement name => Text.foldCase name = name
  | _ => True

/-- Conditions after the first one of a compound. -/
def Compound.FormedMore : List Simple → Prop
  | [] => True
  | simple :: rest =>
      simple.isLeading = false ∧ simple.Formed ∧ Compound.FormedMore rest

def Compound.Formed : List Simple → Prop
  | [] => False
  | simple :: rest => simple.Formed ∧ Compound.FormedMore rest

def Chain.FormedLeft : List (Combinator × List Simple) → Prop
  | [] => True
  | (_, compound) :: rest => Compound.Formed compound ∧ Chain.FormedLeft rest

def Chain.Formed (relative : Bool) : Chain → Prop
  | ⟨subject, left, anchor⟩ =>
      Compound.Formed subject ∧ Chain.FormedLeft left ∧ anchor.isSome = relative

/-- The chains of a list, which may be empty. -/
def Selector.Formed (relative : Bool) : List Chain → Prop
  | [] => True
  | chain :: rest => chain.Formed relative ∧ Selector.Formed relative rest

end

mutual

/-- The names that are written in a condition. -/
def Simple.names : Simple → List String
  | .type name | .id name | .className name | .pseudoElement name => [name]
  | .attribute test => [test.name]
  | .functional _ argument => Selector.names argument
  | .universal | .plain _ | .nth _ _ => []

def Compound.names : List Simple → List String
  | [] => []
  | simple :: rest => simple.names ++ Compound.names rest

def Chain.namesLeft : List (Combinator × List Simple) → List String
  | [] => []
  | (_, compound) :: rest => Compound.names compound ++ Chain.namesLeft rest

def Chain.names : Chain → List String
  | ⟨subject, left, _⟩ => Compound.names subject ++ Chain.namesLeft left

def Selector.names : List Chain → List String
  | [] => []
  | chain :: rest => chain.names ++ Selector.names rest

end

mutual

/-- How deep arguments of functional pseudo-classes nest. -/
def Simple.nesting : Simple → Nat
  | .functional _ argument => 1 + Selector.nesting argument
  | _ => 0

def Compound.nesting : List Simple → Nat
  | [] => 0
  | simple :: rest => max simple.nesting (Compound.nesting rest)

def Chain.nestingLeft : List (Combinator × List Simple) → Nat
  | [] => 0
  | (_, compound) :: rest =>
      max (Chain.nestingLeft rest) (Compound.nesting compound)

def Chain.nesting : Chain → Nat
  | ⟨subject, left, _⟩ => max (Chain.nestingLeft left) (Compound.nesting subject)

def Selector.nesting : List Chain → Nat
  | [] => 0
  | chain :: rest => max chain.nesting (Selector.nesting rest)

end

/-! ## Selectors of a single condition -/

section

variable {simple : Simple} {anchor : Option Combinator}

@[simp] theorem Selector.formed_single_iff {relative : Bool} :
    Selector.Formed relative [⟨[simple], [], anchor⟩] ↔
      simple.Formed ∧ anchor.isSome = relative := by
  simp only [Selector.Formed, Chain.Formed, Chain.FormedLeft, Compound.Formed,
    Compound.FormedMore, and_true, true_and]

@[simp] theorem Selector.names_single :
    Selector.names [⟨[simple], [], anchor⟩] = simple.names := by
  simp only [Selector.names, Chain.names, Chain.namesLeft, Compound.names,
    List.append_nil]

@[simp] theorem Selector.nesting_single :
    Selector.nesting [⟨[simple], [], anchor⟩] = simple.nesting := by
  simp only [Selector.nesting, Chain.nesting, Chain.nestingLeft, Compound.nesting,
    Nat.max_zero, Nat.zero_max]

end

end TreeSelectors
