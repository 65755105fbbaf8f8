import TreeSelectors.Terminal

/-!
# Warnings

A warning is written once and remembered.  What is remembered is the text of
the warning with the component that gave it in front.
-/

namespace TreeSelectors

/-- The texts of the warnings that were given, the latest first. -/
structure WarningSet where
  given : List String
deriving DecidableEq, Repr

namespace WarningSet

def empty : WarningSet :=
  ⟨[]⟩

/-- What is remembered of a warning. -/
def key (component message : String) : String :=
  "[" ++ component ++ "] " ++ message

/-- Whether a warning was given. -/
def contains (warnings : WarningSet) (component message : String) : Bool :=
  warnings.given.contains (key component message)

/-- The line that is written for a warning, in yellow. -/
def line (component message : String) : String :=
  Rendition.yellow.apply
    ("[Selkie " ++ component ++ "] \u26a0 " ++ message) ++ "\n"

/-- Gives a warning: the set that remembers it, and the line to write unless
the warning was given before. -/
def warn (warnings : WarningSet) (component message : String) :
    WarningSet × Option String :=
  if warnings.contains component message then
    (warnings, none)
  else
    (⟨key component message :: warnings.given⟩, some (line component message))

/-- Gives warnings in turn; the lines to write stand in order. -/
def warnAll (warnings : WarningSet) (component : String) :
    List String → WarningSet × List String
  | [] => (warnings, [])
  | message :: rest =>
      let first := warnings.warn component message
      let others := first.1.warnAll component rest
      (others.1, first.2.toList ++ others.2)

end WarningSet

end TreeSelectors
