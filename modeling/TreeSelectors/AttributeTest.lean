import TreeSelectors.Text.Ascii

/-!
# Attribute tests

The condition that `[name]` and `[name op value]` put on the value of one
attribute.
-/

namespace TreeSelectors

/-- How the value of an attribute is compared. -/
inductive AttributeOperator where
  /-- The attribute is there, whatever its value. -/
  | present
  /-- The value is the given one. -/
  | equals
  /-- One of the blank-separated words of the value is the given one. -/
  | includes
  /-- The value is the given one, or starts with it and a hyphen. -/
  | dashMatch
  /-- The value starts with the given one. -/
  | startsWith
  /-- The value ends with the given one. -/
  | endsWith
  /-- The value contains the given one. -/
  | contains
deriving DecidableEq, Repr

/-- The sign of an operator; `present` has none. -/
def AttributeOperator.sign : AttributeOperator → List Char
  | .present => []
  | .equals => ['=']
  | .includes => ['~', '=']
  | .dashMatch => ['|', '=']
  | .startsWith => ['^', '=']
  | .endsWith => ['$', '=']
  | .contains => ['*', '=']

/-- Whether letter case counts in a comparison. -/
inductive CaseFlag where
  /-- No flag: case counts. -/
  | unstated
  /-- The flag `s`: case counts. -/
  | sensitive
  /-- The flag `i`: the case of ASCII letters does not count. -/
  | insensitive
deriving DecidableEq, Repr

/-- A condition on one attribute.  A test without a value compares with the
empty text. -/
structure AttributeTest where
  name : String
  operator : AttributeOperator
  value : Option String
  case : CaseFlag
deriving DecidableEq, Repr

namespace AttributeTest

/-- The test `[name]`. -/
def present (name : String) : AttributeTest :=
  { name, operator := .present, value := none, case := .unstated }

/-- The form of a value that comparisons look at. -/
def comparable (test : AttributeTest) (value : String) : List Char :=
  match test.case with
  | .insensitive => value.toList.map Char.toLower
  | _ => value.toList

/-- Compares an actual value with the expected one. -/
def compare (operator : AttributeOperator) (expected actual : List Char) :
    Bool :=
  match operator with
  | .present => true
  | .equals => actual = expected
  | .includes =>
      !expected.isEmpty && !expected.any Text.isBlank &&
        (Text.words actual).contains expected
  | .dashMatch =>
      actual = expected || (expected ++ ['-']).isPrefixOf actual
  | .startsWith => !expected.isEmpty && expected.isPrefixOf actual
  | .endsWith => !expected.isEmpty && expected.isSuffixOf actual
  | .contains => !expected.isEmpty && Text.hasRun expected actual

/-- Whether the test holds of an attribute value; `none` is an attribute that
is not there. -/
def accepts (test : AttributeTest) : Option String → Bool
  | none => false
  | some actual =>
      compare test.operator (test.comparable (test.value.getD ""))
        (test.comparable actual)

end AttributeTest

end TreeSelectors
