import TreeSelectors.Selector
import TreeSelectors.Text.Name
import TreeSelectors.Text.Quoted

/-!
# Writing selectors

Every selector has one canonical text.  Chains are separated by a comma and a
space, a combinator other than descendance stands between two spaces, names
and values carry the escapes that they need, and a compound without conditions
is written like the universal one.
-/

namespace TreeSelectors

/-- An attribute test between brackets.  The value decides whether there is
more to write than the name. -/
def AttributeTest.write (test : AttributeTest) : List Char :=
  let comparison := match test.value with
    | none => []
    | some value =>
        let flag := match test.case with
          | .unstated => []
          | .sensitive => [' ', 's']
          | .insensitive => [' ', 'i']
        test.operator.sign ++ Text.writeQuoted value.toList ++ flag
  '[' :: Text.writeName test.name.toList ++ comparison ++ [']']

/-- What stands between a compound and the next one. -/
def Combinator.write : Combinator → List Char
  | .descendant => [' ']
  | combinator => [' ', combinator.sign, ' ']

/-- What stands in front of a chain.  A descendant anchor is implied. -/
def Chain.writeAnchor : Option Combinator → List Char
  | none | some .descendant => []
  | some combinator => [combinator.sign, ' ']

mutual

def Simple.write : Simple → List Char
  | .type name => Text.writeName name.toList
  | .universal => ['*']
  | .id name => '#' :: Text.writeName name.toList
  | .className name => '.' :: Text.writeName name.toList
  | .attribute test => test.write
  | .plain pseudoClass => ':' :: pseudoClass.name.toList
  | .nth counting formula =>
      ':' :: counting.name.toList ++ '(' :: formula.write ++ [')']
  | .functional function argument =>
      ':' :: function.name.toList ++ '(' :: Selector.write argument ++ [')']
  | .pseudoElement name => ':' :: ':' :: Text.writeName name.toList

/-- The conditions of a compound, one after the other. -/
def Compound.writeConditions : List Simple → List Char
  | [] => []
  | simple :: rest => simple.write ++ Compound.writeConditions rest

def Compound.write : List Simple → List Char
  | [] => ['*']
  | simple :: rest => simple.write ++ Compound.writeConditions rest

/-- The compounds left of the subject, from left to right. -/
def Chain.writeLeft : List (Combinator × List Simple) → List Char
  | [] => []
  | (combinator, compound) :: rest =>
      Chain.writeLeft rest ++ Compound.write compound ++ combinator.write

def Chain.write : Chain → List Char
  | ⟨subject, left, anchor⟩ =>
      Chain.writeAnchor anchor ++ Chain.writeLeft left ++ Compound.write subject

/-- The chains after the first one, each behind a comma. -/
def Selector.writeMore : List Chain → List Char
  | [] => []
  | chain :: rest => ',' :: ' ' :: chain.write ++ Selector.writeMore rest

def Selector.write : List Chain → List Char
  | [] => []
  | chain :: rest => chain.write ++ Selector.writeMore rest

end

/-- The canonical text of a selector. -/
def Selector.text (selector : Selector) : String :=
  String.ofList (Selector.write selector)

/-- The canonical text of a compound. -/
def Compound.text (compound : Compound) : String :=
  String.ofList (Compound.write compound)

end TreeSelectors
