/-!
# Limits

Bounds on how deep selectors and aliases nest, and on how deep matching goes.
-/

namespace TreeSelectors

/-- The bounds on reading a selector. -/
structure CompileLimits where
  /-- How deep arguments of functional pseudo-classes may nest. -/
  maxNesting : Nat := 32
  /-- How deep aliases may refer to each other. -/
  maxAliasDepth : Nat := 16
deriving DecidableEq, Repr

/-- The default bound on the depth of matching. -/
def defaultMaxDepth : Nat :=
  256

end TreeSelectors
