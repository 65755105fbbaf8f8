import TreeSelectors.Limits
import TreeSelectors.Selector.Equality
import TreeSelectors.Selector.Parser

/-!
# Tables of aliases

An alias is a pseudo-class that abbreviates a selector, which may use other
aliases.  Building a table reads every definition once, those that it refers to
first.  A circle of references is an error, and so is a chain of more
references in progress than the default alias depth.
-/

namespace TreeSelectors

/-- A definition that was read. -/
structure AliasEntry where
  name : String
  /-- The text that defines the alias. -/
  expansion : String
  selector : Selector
  /-- The number of aliases on the deepest chain of references from here. -/
  depth : Nat
  /-- The next alias on that chain. -/
  via : Option String
deriving DecidableEq

/-- The definitions that were read, those read first in front. -/
structure AliasTable where
  entries : List AliasEntry
deriving DecidableEq

namespace AliasTable

def find? (table : AliasTable) (name : String) : Option AliasEntry :=
  table.entries.find? (·.name = name)

/-- The aliases on the deepest chain of references from an alias, at most
`limit` of them after the first. -/
def chainFrom (table : AliasTable) (name : String) : (limit : Nat) → List String
  | 0 => [name]
  | limit + 1 =>
      match (table.find? name).bind AliasEntry.via with
      | some next => name :: table.chainFrom next limit
      | none => [name]

/-- The aliases on the deepest chain of references from an alias. -/
def chain (table : AliasTable) (name : String) : List String :=
  table.chainFrom name table.entries.length

/-- The aliases of a table, as far as their chains are no deeper than a
limit. -/
def source (table : AliasTable) (maxDepth : Nat) : AliasSource Unit where
  expand name := do
    match table.find? name with
    | none => return none
    | some entry =>
        if maxDepth < entry.depth then
          throw (.aliasCycle (table.chain name))
        else
          return some entry.selector
  isAlias name := (table.find? name).isSome

end AliasTable

namespace AliasTable.Build

/-- What reading one definition has found out: the entries read so far, and the
deepest reference of the definition. -/
structure Survey where
  table : AliasTable
  depth : Nat
  via : Option String

/-- Takes a reference into account.  Of equally deep ones the first counts. -/
def Survey.note (survey : Survey) (entry : AliasEntry) (table : AliasTable) :
    Survey :=
  if survey.depth < entry.depth then
    { table, depth := entry.depth, via := some entry.name }
  else
    { survey with table }

/-- The text that a name stands for; the last definition of a name counts. -/
def expansion? (definitions : List (String × String)) (name : String) :
    Option String :=
  definitions.reverse.lookup name

/-- The entry of a name in a table that is extended by it if need be.  The
definitions in `stack` are being read, each because of a reference in the one
before; `levels` more may join them. -/
def entry (definitions : List (String × String)) :
    (levels : Nat) → (stack : List String) → (name : String) → AliasTable →
      Except ParseError (AliasEntry × AliasTable)
  | levels, stack, name, table =>
      match table.find? name with
      | some entry => .ok (entry, table)
      | none =>
          if name ∈ stack then
            .error (.aliasCycle (stack ++ [name]))
          else
            match levels with
            | 0 => .error (.aliasCycle (stack ++ [name]))
            | levels + 1 =>
                match expansion? definitions name with
                | none => .error (.unknownPseudoClass name)
                | some expansion =>
                    let references : AliasSource Survey := {
                      expand := fun reference survey =>
                        if (expansion? definitions reference).isNone then
                          .ok (none, survey)
                        else
                          match entry definitions levels (stack ++ [name])
                              reference survey.table with
                          | .error failure => .error failure
                          | .ok (entry, table) =>
                              .ok (some entry.selector, survey.note entry table)
                      isAlias := fun reference =>
                        (expansion? definitions reference).isSome }
                    let limits : CompileLimits := {}
                    match (Selector.read references limits.maxNesting
                        expansion).run ⟨⟨table, 0, none⟩, []⟩ with
                    | .error failure _ => .error failure
                    | .ok selector ⟨survey, _⟩ =>
                        let entry : AliasEntry :=
                          { name, expansion, selector, depth := survey.depth + 1,
                            via := survey.via }
                        .ok (entry, ⟨survey.table.entries ++ [entry]⟩)

end AliasTable.Build

/-- Reads definitions, each a name and the text that it stands for. -/
def AliasTable.build (definitions : List (String × String)) :
    Except ParseError AliasTable :=
  let limits : CompileLimits := {}
  definitions.foldlM (fun table definition => do
    let (_, table) ←
      Build.entry definitions limits.maxAliasDepth [] definition.1 table
    return table) ⟨[]⟩

end TreeSelectors
