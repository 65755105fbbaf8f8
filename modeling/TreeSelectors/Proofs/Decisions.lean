import TreeSelectors.Proofs.Alias.Calls
import TreeSelectors.Proofs.Selection
import TreeSelectors.Proofs.Selector.RoundTrip

/-!
# Deciding questions about elements

The text of a selector decides a question about an element if matching it can have no
answer but the right one, and has an answer as soon as it may go deep enough.  A text
decides what the selector that it stands for means, and different texts that decide the
same question match the same elements.
-/

namespace TreeSelectors

namespace CompiledSelector

/-- `Decides text tree node levels holds`: under any limit on the depth, the text
compiles, an answer of the selector at the node says whether `holds` is true, and there
is an answer if the limit allows for so many levels. -/
def Decides (text : String) (tree : Tree) (node : NodeId) (levels : Nat) (holds : Prop) :
    Prop :=
  ∀ maxDepth, ∃ compiled, (compile text {} maxDepth).1 = .ok compiled ∧
    (∀ answer, compiled.accepts tree.view node = .ok answer → (answer = true ↔ holds)) ∧
    (levels ≤ maxDepth → ∃ answer, compiled.accepts tree.view node = .ok answer)

theorem compile_of_parse {text : String} {limits : CompileLimits} {selector : Selector}
    (parsed : (Selector.parse limits text).1 = .ok selector) (maxDepth : Nat) :
    (compile text limits maxDepth).1 = .ok { source := text, maxDepth, selector } := by
  simp only [compile, parsed]
  rfl

theorem parse_of_calls {text name : String} (calls : Calls text name)
    {table : AliasTable} (built : Alias.table = .ok table) {entry : AliasEntry}
    (found : table.find? name = some entry) {limits : CompileLimits}
    (shallow : entry.depth ≤ limits.maxAliasDepth) :
    (Selector.parse limits text).1 =
      .ok [⟨[.functional .is entry.selector], [], none⟩] := by
  rw [Selector.parse, built]
  exact calls.parseWith_eq found shallow

/-- The canonical text of a single condition without names stands for that
condition. -/
theorem parse_of_condition {simple : Simple} (formed : simple.Formed)
    (unnamed : simple.names = []) (nests : simple.nesting ≤ 32) :
    (Selector.parse {} (String.ofList simple.write)).1 =
      .ok [⟨[simple], [], none⟩] := by
  have writable : Selector.Writable [⟨[simple], [], none⟩] := by
    refine ⟨List.cons_ne_nil _ _, Selector.formed_single_iff.mpr ⟨formed, rfl⟩, ?_⟩
    simp [unnamed]
  have text : Selector.text [⟨[simple], [], none⟩] = String.ofList simple.write := by
    simp [Selector.text, Selector.write, Selector.writeMore, Chain.write,
      Chain.writeAnchor, Chain.writeLeft, Compound.write, Compound.writeConditions]
  rw [← text]
  exact writable.parse_text (Nat.le_trans (Nat.le_of_eq Selector.nesting_single) nests)

/-- Whatever calls a built-in alias compiles to `:is()` over its selector. -/
theorem compile_of_calls {text name : String} (calls : Calls text name)
    {table : AliasTable} (built : Alias.table = .ok table) {entry : AliasEntry}
    (found : table.find? name = some entry) {limits : CompileLimits}
    (shallow : entry.depth ≤ limits.maxAliasDepth) (maxDepth : Nat) :
    (compile text limits maxDepth).1 =
      .ok { source := text, maxDepth,
            selector := [⟨[.functional .is entry.selector], [], none⟩] } :=
  compile_of_parse (parse_of_calls calls built found shallow) maxDepth

namespace Decides

variable {text name : String} {tree : Tree} {node : NodeId} {levels : Nat}
  {holds other : Prop} {selector : Selector}

theorem congr (decides : Decides text tree node levels holds) (same : holds ↔ other) :
    Decides text tree node levels other :=
  propext same ▸ decides

/-- What a text decides to be so is matched if there are enough levels. -/
theorem accepts (decides : Decides text tree node levels holds) (so : holds)
    {maxDepth : Nat} (enough : levels ≤ maxDepth) :
    ∃ compiled, (compile text {} maxDepth).1 = .ok compiled ∧
      compiled.accepts tree.view node = .ok true := by
  obtain ⟨compiled, compiles, means, answers⟩ := decides maxDepth
  obtain ⟨answer, answered⟩ := answers enough
  obtain rfl : answer = true := (means answer answered).mpr so
  exact ⟨compiled, compiles, answered⟩

section

variable (rooted : tree.Rooted) (element : tree.forest.isElement node)

include rooted element

/-- A text decides what its selector means, within the depth of the selector. -/
theorem of_parse (parsed : (Selector.parse {} text).1 = .ok selector)
    (fits : Selector.depth selector ≤ levels) :
    Decides text tree node levels (Selector.Holds tree.forest selector node) := by
  intro maxDepth
  have linked := rooted.linked
  have inTree : node ∈ Finset.range tree.size :=
    Finset.mem_range.mpr (Tree.lt_size_of_isElement element)
  refine ⟨_, compile_of_parse parsed maxDepth, ?_, ?_⟩
  · intro answer answered
    exact Matching.accepts_iff linked.tells linked.consistent rooted.innerElements
      answered
  · intro enough
    exact linked.presents.exists_accepts inTree (Nat.le_trans fits enough)

/-- A text that is read as a single condition decides whether the condition holds. -/
theorem of_parse_condition {simple : Simple}
    (parsed : (Selector.parse {} text).1 = .ok [⟨[simple], [], none⟩])
    (fits : simple.depth < levels) :
    Decides text tree node levels (simple.Holds tree.forest node) := by
  refine (of_parse rooted element parsed ?_).congr ?_
  · rw [Selector.depth_single]
    exact fits
  · simp [element]

/-- What calls a built-in alias decides what the selector of the alias means. -/
theorem of_calls (calls : Calls text name) {depth : Nat}
    (listed : (name, selector, depth) ∈ Alias.states)
    (fits : Selector.depth [⟨[.functional .is selector], [], none⟩] ≤ levels) :
    Decides text tree node levels (Selector.Holds tree.forest selector node) := by
  obtain ⟨table, built, entries⟩ := Alias.exists_entries
  obtain ⟨entry, found, rfl, rfl⟩ := entries _ listed
  have shallow : entry.depth ≤ ({} : CompileLimits).maxAliasDepth :=
    Alias.depth_le_of_mem listed
  have parsed := parse_of_calls calls built found shallow
  refine (of_parse rooted element parsed fits).congr ?_
  simp [element]

end

end Decides

end CompiledSelector

end TreeSelectors
