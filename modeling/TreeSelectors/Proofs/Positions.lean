import Mathlib.Algebra.Group.Nat.Defs
import TreeSelectors.Proofs.Decisions
import TreeSelectors.Proofs.Nth
import TreeSelectors.Proofs.Tree.Size

/-!
# Positions among siblings

The positional pseudo-classes count siblings, while combinators and `:has()` go from one
sibling to another.  Both speak of the same siblings: those in front of an element and
those after it.  So the keywords, the formulas and the combinators that say that there
are none of them match the same elements.
-/

namespace TreeSelectors

/-! ## Formulas -/

namespace Nth

variable {formula : Nth} {position : Nat}

theorem admits_iff (small : position ≤ maxPosition) :
    formula.Admits position ↔
      ∃ times : Nat, formula.step.toInt * times + formula.offset.toInt = position := by
  rw [Admits, if_pos small]

end Nth

/-- The condition that the position of an element belongs to a formula, as it is
written. -/
def Counting.call (counting : Counting) (formula : Nth) : String :=
  ":" ++ counting.name ++ "(" ++ String.ofList formula.write ++ ")"

/-! ## Conditions on neighbours -/

/-- `:not(* A *)`: no element stands in front as the combinator says. -/
def Combinator.noneBefore (combinator : Combinator) : Simple :=
  .functional .not [⟨[.universal], [(combinator, [.universal])], none⟩]

/-- `:not(:has(A *))`: no element follows as the combinator says. -/
def Combinator.noneBehind (combinator : Combinator) : Simple :=
  .functional .not [⟨[.functional .has [⟨[.universal], [], some combinator⟩]], [], none⟩]

section

variable {ν : Type} [DecidableEq ν] {forest : Forest ν} {node : ν}
  {combinator : Combinator} (element : forest.isElement node)

include element

theorem Combinator.holds_noneBefore_iff :
    combinator.noneBefore.Holds forest node ↔
      ∀ left, forest.isElement left → ¬ combinator.Relates forest left node := by
  simp [noneBefore, Chain.Holds, Chain.Links, element]

theorem Combinator.holds_noneBehind_iff :
    combinator.noneBehind.Holds forest node ↔
      ∀ right, forest.isElement right → ¬ combinator.Relates forest node right := by
  simp [noneBehind, element]

theorem holds_noneBefore_sibling_iff :
    Combinator.laterSibling.noneBefore.Holds forest node ↔
      Counting.children.passed forest node = [] := by
  rw [Combinator.holds_noneBefore_iff element, Counting.passed, List.filter_eq_nil_iff]
  exact forall_congr' fun left => imp_not_comm

theorem holds_noneBehind_sibling_iff (consistent : forest.Consistent) :
    Combinator.laterSibling.noneBehind.Holds forest node ↔
      Counting.childrenFromEnd.passed forest node = [] := by
  rw [Combinator.holds_noneBehind_iff element, Counting.passed, List.filter_eq_nil_iff]
  simp only [Combinator.Relates, consistent.mem_after_iff]
  exact forall_congr' fun right => imp_not_comm

theorem holds_noneBefore_child_iff :
    Combinator.child.noneBefore.Holds forest node ↔
      PlainClass.root.Holds forest node := by
  rw [Combinator.holds_noneBefore_iff element, PlainClass.Holds]
  refine forall_congr' fun parent => imp_not_comm.trans (imp_congr_right fun _ => ?_)
  rw [Forest.isElement, Option.not_isSome_iff_eq_none]

end

/-! ## Texts -/

private theorem ofList_write_nth (counting : Counting) (formula : Nth) :
    String.ofList (Simple.nth counting formula).write = counting.call formula := by
  rw [← String.toList_inj]
  simp [Counting.call, Simple.write]

private theorem ofList_write_plain (plain : PlainClass) :
    String.ofList (Simple.plain plain).write = ":" ++ plain.name := by
  rw [← String.toList_inj]
  simp [Simple.write]

/-- Fewer siblings are passed than there are nodes. -/
theorem Counting.passed_lt (counting : Counting) {tree : Tree} (linked : tree.Linked)
    {node : NodeId} (inTree : node < tree.size) :
    (counting.passed tree.forest node).length < tree.size := by
  have siblings := linked.siblings_lt inTree
  cases counting with
  | children | ofType =>
      exact Nat.lt_of_le_of_lt (Nat.le_trans (List.length_filter_le _ _)
        (Nat.le_add_right _ _)) siblings
  | childrenFromEnd | ofTypeFromEnd =>
      exact Nat.lt_of_le_of_lt (Nat.le_trans (List.length_filter_le _ _)
        (Nat.le_add_left _ _)) siblings

namespace Tree

/-- The notation of a list with two items and a paragraph, and a text and a comment
between them. -/
def listingText : String :=
  "[\"element\",\"ul\",\x7b\x7d,[" ++
    "[\"text\",\"-\"]," ++
    "[\"element\",\"li\"]," ++
    "[\"comment\",\"-\"]," ++
    "[\"element\",\"LI\"]," ++
    "[\"element\",\"p\"]]]"

/-- The tree of that notation. -/
def listing : Tree :=
  ⟨#[⟨.document, none, [1], none, none⟩,
    ⟨.element ⟨"ul", .empty⟩, some 0, [2, 3, 4, 5, 6], none, none⟩,
    ⟨.text "-", some 1, [], some 3, none⟩,
    ⟨.element ⟨"li", .empty⟩, some 1, [], some 4, some 2⟩,
    ⟨.comment "-", some 1, [], some 5, some 3⟩,
    ⟨.element ⟨"LI", .empty⟩, some 1, [], some 6, some 4⟩,
    ⟨.element ⟨"p", .empty⟩, some 1, [], none, some 5⟩]⟩

end Tree

namespace CompiledSelector

theorem parse_call (counting : Counting) (formula : Nth) :
    (Selector.parse {} (counting.call formula)).1 =
      .ok [⟨[.nth counting formula], [], none⟩] := by
  rw [← ofList_write_nth]
  exact parse_of_condition trivial rfl (Nat.zero_le _)

theorem parse_plain (plain : PlainClass) :
    (Selector.parse {} (":" ++ plain.name)).1 = .ok [⟨[.plain plain], [], none⟩] := by
  rw [← ofList_write_plain]
  exact parse_of_condition trivial rfl (Nat.zero_le _)

private theorem parse_noneBefore (combinator : Combinator) :
    (Selector.parse {} (String.ofList combinator.noneBefore.write)).1 =
      .ok [⟨[combinator.noneBefore], [], none⟩] := by
  refine parse_of_condition ?_ ?_ ?_
  · simp [Combinator.noneBefore, Simple.Formed, Selector.Formed, Chain.Formed,
      Chain.FormedLeft, Compound.Formed, Compound.FormedMore]
  · simp [Combinator.noneBefore, Simple.names, Selector.names, Chain.names,
      Chain.namesLeft, Compound.names]
  · simp [Combinator.noneBefore, Simple.nesting, Selector.nesting, Chain.nesting,
      Chain.nestingLeft, Compound.nesting]

private theorem parse_noneBehind (combinator : Combinator) :
    (Selector.parse {} (String.ofList combinator.noneBehind.write)).1 =
      .ok [⟨[combinator.noneBehind], [], none⟩] := by
  refine parse_of_condition ?_ ?_ ?_
  · simp [Combinator.noneBehind, Simple.Formed]
  · simp [Combinator.noneBehind, Simple.names]
  · simp [Combinator.noneBehind, Simple.nesting]

namespace Decides

variable {tree : Tree} {node : NodeId} (rooted : tree.Rooted)
  (element : tree.forest.isElement node)

include rooted element

theorem plain (plain : PlainClass) {levels : Nat} (enough : 0 < levels) :
    Decides (":" ++ plain.name) tree node levels (plain.Holds tree.forest node) := by
  refine (of_parse_condition rooted element (parse_plain plain) enough).congr ?_
  rw [Simple.Holds]

theorem noneBefore_sibling : Decides ":not(* ~ *)" tree node 3
    (Counting.children.passed tree.forest node = []) :=
  (of_parse_condition rooted element (parse_noneBefore .laterSibling)
    (by decide)).congr (holds_noneBefore_sibling_iff element)

theorem noneBehind_sibling : Decides ":not(:has(~ *))" tree node 3
    (Counting.childrenFromEnd.passed tree.forest node = []) :=
  (of_parse_condition rooted element (parse_noneBehind .laterSibling)
    (by decide)).congr (holds_noneBehind_sibling_iff element rooted.linked.consistent)

theorem noneBefore_child : Decides ":not(* > *)" tree node 3
    (PlainClass.root.Holds tree.forest node) :=
  (of_parse_condition rooted element (parse_noneBefore .child)
    (by decide)).congr (holds_noneBefore_child_iff element)

section

variable (small : tree.size ≤ Nth.maxPosition)

include small

/-- Whatever is read as a positional pseudo-class decides whether the formula gives the
position. -/
theorem of_parse_nth {text : String} {counting : Counting} {formula : Nth}
    (parsed : (Selector.parse {} text).1 = .ok [⟨[.nth counting formula], [], none⟩])
    {levels : Nat} (enough : 0 < levels) :
    Decides text tree node levels (∃ times : Nat,
      formula.step.toInt * times + formula.offset.toInt =
        (counting.passed tree.forest node).length + 1) := by
  have position : (counting.passed tree.forest node).length + 1 ≤ Nth.maxPosition :=
    Nat.le_trans (counting.passed_lt rooted.linked (Tree.lt_size_of_isElement element))
      small
  refine (of_parse_condition rooted element parsed enough).congr ?_
  rw [Simple.Holds, Nth.admits_iff position]
  rfl

/-- The formula `1` decides whether nothing is counted. -/
theorem call_one (counting : Counting) {levels : Nat} (enough : 0 < levels) :
    Decides (counting.call ⟨0, 1⟩) tree node levels
      (counting.passed tree.forest node = []) := by
  refine (of_parse_nth rooted element small (parse_call counting ⟨0, 1⟩) enough).congr ?_
  simp only [Int32.toInt_zero, Int.zero_mul, Int32.toInt_one, exists_const]
  rw [← List.length_eq_zero_iff]
  omega

end

end Decides

/-- On a loaded tree, the formula of a positional pseudo-class is matched against one
plus the number of siblings on one side, all of them or those of the same type.  The
keywords for the first, the last and the only child, and the combinators that say that
there is no sibling on one side, match the same elements as the formula `1`; so do the
keywords for types.  An element is the root if it is not the child of an element.  The
tree of a notation with fewer than `2 ^ 63` characters has only positions for which the
arithmetic of formulas is exact. -/
theorem decides_positions {text : String} {tree : Tree}
    (loaded : Tree.load text = .ok tree) (short : text.length < 2 ^ 63) {node : NodeId}
    (element : tree.forest.isElement node) :
    (∀ (counting : Counting) (formula : Nth) (written : String),
      (Selector.parse {} written).1 = .ok [⟨[.nth counting formula], [], none⟩] →
        Decides written tree node 1 (∃ times : Nat,
          formula.step.toInt * times + formula.offset.toInt =
            (counting.passed tree.forest node).length + 1)) ∧
    (∀ (counting : Counting) (formula : Nth),
      (Selector.parse {} (counting.call formula)).1 =
        .ok [⟨[.nth counting formula], [], none⟩]) ∧
    (∀ written ∈ [":first-child", ":nth-child(1)", ":not(* ~ *)"],
      Decides written tree node 3 (Counting.children.passed tree.forest node = [])) ∧
    (∀ written ∈ [":last-child", ":nth-last-child(1)", ":not(:has(~ *))"],
      Decides written tree node 3
        (Counting.childrenFromEnd.passed tree.forest node = [])) ∧
    Decides ":only-child" tree node 1
      (Counting.children.passed tree.forest node = [] ∧
        Counting.childrenFromEnd.passed tree.forest node = []) ∧
    (∀ written ∈ [":first-of-type", ":nth-of-type(1)"],
      Decides written tree node 1 (Counting.ofType.passed tree.forest node = [])) ∧
    (∀ written ∈ [":last-of-type", ":nth-last-of-type(1)"],
      Decides written tree node 1
        (Counting.ofTypeFromEnd.passed tree.forest node = [])) ∧
    Decides ":only-of-type" tree node 1
      (Counting.ofType.passed tree.forest node = [] ∧
        Counting.ofTypeFromEnd.passed tree.forest node = []) ∧
    ∀ written ∈ [":root", ":not(* > *)"],
      Decides written tree node 3 (∀ parent, tree.forest.parent node = some parent →
        tree.forest.tag parent = none) := by
  have rooted := Tree.rooted_of_load loaded
  have small : tree.size ≤ Nth.maxPosition := by
    have size := Tree.size_le_of_load loaded
    simp only [Nth.maxPosition]
    omega
  have keyword (plain : PlainClass) {levels : Nat} (enough : 0 < levels) :=
    Decides.plain rooted element plain enough
  have first (counting : Counting) {levels : Nat} (enough : 0 < levels) :=
    Decides.call_one rooted element small counting enough
  simp only [List.forall_mem_cons, List.not_mem_nil, false_implies, implies_true,
    and_true]
  refine ⟨?_, parse_call, ⟨?_, ?_, ?_⟩, ⟨?_, ?_, ?_⟩, ?_, ⟨?_, ?_⟩, ⟨?_, ?_⟩, ?_, ?_, ?_⟩
  · intro counting formula written parsed
    exact .of_parse_nth rooted element small parsed Nat.one_pos
  · exact keyword .firstChild (by decide)
  · exact first .children (by decide)
  · exact .noneBefore_sibling rooted element
  · exact keyword .lastChild (by decide)
  · exact first .childrenFromEnd (by decide)
  · exact .noneBehind_sibling rooted element
  · exact keyword .onlyChild (by decide)
  · exact keyword .firstOfType (by decide)
  · exact first .ofType (by decide)
  · exact keyword .lastOfType (by decide)
  · exact first .ofTypeFromEnd (by decide)
  · exact keyword .onlyOfType (by decide)
  · exact keyword .root (by decide)
  · exact .noneBefore_child rooted element

/-- The second item of the list is in an even position and the last of its type, but not
the last child. -/
theorem decides_positions_item :
    Tree.load Tree.listingText = .ok Tree.listing ∧ Tree.listingText.length < 2 ^ 63 ∧
      Tree.listing.forest.isElement 5 ∧
      (∃ even, (compile ":nth-child(2n)" {} defaultMaxDepth).1 = .ok even ∧
        even.accepts Tree.listing.view 5 = .ok true) ∧
      (∃ last, (compile ":last-of-type" {} defaultMaxDepth).1 = .ok last ∧
        last.accepts Tree.listing.view 5 = .ok true) ∧
      Decides ":not(:has(~ *))" Tree.listing 5 3 False := by
  have loaded : Tree.load Tree.listingText = .ok Tree.listing := by decide +kernel
  have short : Tree.listingText.length < 2 ^ 63 := by decide
  have element : Tree.listing.forest.isElement 5 := by decide
  obtain ⟨formulas, calls, -, last, -, -, lastOfType, -, -⟩ :=
    decides_positions loaded short element
  have even := formulas .children ⟨2, 0⟩ _ (calls .children ⟨2, 0⟩)
  have ends := lastOfType ":last-of-type" (by simp)
  have followed := last ":not(:has(~ *))" (by simp)
  refine ⟨loaded, short, element, even.accepts ⟨1, by decide⟩ (by decide),
    ends.accepts (by decide) (by decide), followed.congr (by decide)⟩

end CompiledSelector

end TreeSelectors
