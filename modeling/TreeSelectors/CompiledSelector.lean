import TreeSelectors.Alias.Builtin
import TreeSelectors.Matching
import TreeSelectors.Selector.Printer
import TreeSelectors.WarningSet

/-!
# Compiled selectors

A compiled selector is a text that was read with the built-in aliases, ready to
be matched against any tree.
-/

namespace TreeSelectors

structure CompiledSelector where
  /-- The text as it was given. -/
  source : String
  selector : Selector
  maxDepth : Nat
  filter : Prefilter := .ofSelector selector
  filter_eq : filter = .ofSelector selector := by rfl

/-- Reads a text as a selector over the aliases of a table, unless there is an
error in the table.  The remarks stand in the order in which they were made; those
made before an error count, too. -/
def Selector.parseWith (aliases : Except ParseError AliasTable)
    (limits : CompileLimits) (text : String) :
    Except ParseError Selector × List Remark :=
  match aliases with
  | .error failure => (.error failure, [])
  | .ok table =>
      match (Selector.read (table.source limits.maxAliasDepth)
          limits.maxNesting text).run ⟨(), []⟩ with
      | .ok selector progress => (.ok selector, progress.remarks)
      | .error failure progress => (.error failure, progress.remarks)

/-- Reads a text as a selector over the built-in aliases. -/
def Selector.parse (limits : CompileLimits) (text : String) :
    Except ParseError Selector × List Remark :=
  Selector.parseWith Alias.table limits text

namespace CompiledSelector

/-- Compiles a text. -/
def compile (text : String) (limits : CompileLimits)
    (maxDepth : Nat) : Except ParseError CompiledSelector × List Remark :=
  let parsed := Selector.parse limits text
  (parsed.1.map fun selector =>
    { source := text, selector, maxDepth },
    parsed.2)

/-- The component that warnings about selectors name. -/
def component : String :=
  "Select"

/-- Compiles a text and gives a warning for each remark: the result, the
warnings given so far, and the lines to write. -/
def compileWarning (warnings : WarningSet) (text : String)
    (limits : CompileLimits) (maxDepth : Nat) :
    Except ParseError CompiledSelector × WarningSet × List String :=
  let compiled := compile text limits maxDepth
  (compiled.1, warnings.warnAll component (compiled.2.map Remark.message))

/-- The canonical text. -/
def text (compiled : CompiledSelector) : String :=
  Selector.text compiled.selector

variable {ν : Type} [DecidableEq ν]

/-- Whether a node is an element that the selector matches. -/
def accepts (compiled : CompiledSelector) (view : TreeView ν) (node : ν) :
    Except MatchError Bool :=
  Selector.accepts view compiled.maxDepth compiled.selector node

/-- The elements at or below a node that the selector matches, in document
order. -/
def select (compiled : CompiledSelector) (view : TreeView ν) (root : ν) :
    Except MatchError (List ν) :=
  Selector.select view compiled.maxDepth compiled.selector compiled.filter root

/-- The first of the elements that the selector matches. -/
def first? (compiled : CompiledSelector) (view : TreeView ν) (root : ν) :
    Except MatchError (Option ν) := do
  return (← compiled.select view root).head?

end CompiledSelector

/-- Why no elements can be selected by a text. -/
inductive SelectError where
  | parse (failure : ParseError)
  | matching (failure : MatchError)

def SelectError.message : SelectError → String
  | .parse failure => failure.message
  | .matching failure => failure.message

/-- The elements at or below a node that a text selects, with default
limits. -/
def selectText {ν : Type} [DecidableEq ν] (view : TreeView ν) (text : String)
    (root : ν) : Except SelectError (List ν) :=
  match (CompiledSelector.compile text {} defaultMaxDepth).1 with
  | .error failure => .error (.parse failure)
  | .ok compiled => (compiled.select view root).mapError .matching

end TreeSelectors
