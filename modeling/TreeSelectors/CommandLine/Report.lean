import TreeSelectors.CompiledSelector
import TreeSelectors.Terminal
import TreeSelectors.Tree.Notation

/-!
# Reports of matches

Matches are reported as a listing, in which each element is shown by its place
and its opening tag, or in the notation of trees.
-/

namespace TreeSelectors.CommandLine

/-- What a run writes when it succeeds. -/
structure Report where
  /-- The result. -/
  output : String
  /-- What is said beside the result. -/
  note : String
deriving DecidableEq, Repr

namespace Report

/-- An attribute in an opening tag; an empty value is left out. -/
def writeAttribute (name value : String) : String :=
  let name := " " ++ Rendition.cyan.apply name
  if value.isEmpty then name else name ++ "=\"" ++ value ++ "\""

/-- The opening tag of an element. -/
def openingTag (element : Element) : String :=
  let attributes := element.attributes.entries.map fun entry =>
    writeAttribute entry.1 entry.2
  "<" ++ Rendition.green.apply element.tagName ++ String.join attributes ++ ">"

/-- A place, right-aligned in four columns. -/
def place (id : NodeId) : String :=
  let digits := toString id
  "".pushn ' ' (4 - digits.length) ++ digits

/-- The line for a match. -/
def line (tree : Tree) (id : NodeId) : String :=
  let shown := match tree.element? id with
    | some element => openingTag element
    | none => ""
  Rendition.dim.apply (place id) ++ " " ++ shown ++ "\n"

/-- The listing of matches, with a note on how many there are. -/
def listing (tree : Tree) (selector : String) (found : List NodeId) : Report :=
  { output := String.join (found.map (line tree))
    note := Rendition.bold.apply
      (toString found.length ++ " match(es) for " ++ selector) ++ "\n" }

/-- The matches with all that is below them, in the notation of trees. -/
def inJson (tree : Tree) (found : List NodeId) : Report :=
  let outlines := found.filterMap tree.outline?
  { output := (Json.array (outlines.map Outline.toJson)).pretty ++ "\n"
    note := "" }

end Report

end TreeSelectors.CommandLine
