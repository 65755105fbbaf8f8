/-!
# Remarks on selectors

A selector may hold conditions that no element of a tree can meet.  They are no
errors; reading such a condition leaves a remark.
-/

namespace TreeSelectors

inductive Remark where
  /-- A pseudo-class for what a user does. -/
  | inert (pseudoClass : String)
  /-- A pseudo-element; it is no element of the tree. -/
  | pseudoElement (name : String)
deriving DecidableEq, Repr

def Remark.message : Remark → String
  | .inert pseudoClass => "':" ++ pseudoClass ++ "' never matches a static tree"
  | .pseudoElement name =>
      "pseudo-element '::" ++ name ++ "' never matches an element"

end TreeSelectors
