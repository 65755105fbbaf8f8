import TreeSelectors.Matching
import TreeSelectors.Proofs.Matching.Navigation
import TreeSelectors.Proofs.Nth
import TreeSelectors.Proofs.Siblings

/-!
# Conditions without an argument

The positions of elements and the pseudo-classes that ask only about an
element's own surroundings have the answers that their meaning asks for.
-/

namespace TreeSelectors

namespace TreeView

section

variable {ν : Type} {forest : Forest ν}

/-- Whether a node counts among the elements with a tag, if one is given. -/
def Counts (forest : Forest ν) (tag : Option String) (node : ν) : Bool :=
  (forest.tag node).any fun name => tag.all (Text.sameFolded name)

@[simp] theorem counts_none : Counts forest none = forest.isElement := by
  funext node
  cases known : forest.tag node with
  | none => simp [Counts, Forest.isElement, known]
  | some name => simp [Counts, Forest.isElement, known]

theorem counts_some {node : ν} {tag : String}
    (known : forest.tag node = some tag) :
    Counts forest (some tag) = forest.sameTag node := by
  funext other
  cases otherKnown : forest.tag other with
  | none => simp [Counts, Forest.sameTag, known, otherKnown]
  | some name => simp [Counts, Forest.sameTag, known, otherKnown]

end

variable {ν : Type} [DecidableEq ν] {view : TreeView ν} {forest : Forest ν}

theorem Tells.countedElements (tells : view.Tells forest) {tag : Option String}
    {nodes counted : List ν}
    (answered : view.countedElements tag nodes = .ok counted) :
    counted = nodes.filter (Counts forest tag) := by
  induction nodes generalizing counted with
  | nil =>
      simp only [TreeView.countedElements, pure_eq_ok] at answered
      rw [← answered, List.filter_nil]
  | cons node rest induction =>
      simp only [TreeView.countedElements, bind_eq_ok, liftM_eq_ok,
        pure_eq_ok] at answered
      obtain ⟨name, known, others, collected, rfl⟩ := answered
      rw [induction collected, List.filter_cons, Counts, ← tells.tagName known]
      cases name with
      | none => rfl
      | some name => rfl

private theorem lastIndex_split {node : ν} {front back : List ν}
    (absent : node ∉ back) :
    lastIndex node (front ++ node :: back) = front.length + 1 := by
  have others : ∀ other ∈ back.reverse, decide (other ≠ node) = true := by
    intro other member
    rw [decide_eq_true_iff]
    rintro rfl
    exact absent (List.mem_reverse.mp member)
  rw [lastIndex, List.reverse_append, List.reverse_cons, List.append_assoc,
    List.dropWhile_append_of_pos others]
  simp

/-- The position of an element that counts follows those that count in front of
it, and those after it follow the position. -/
theorem Tells.position (tells : view.Tells forest)
    (consistent : forest.Consistent) {node : ν} {tag : Option String}
    {position : Position} (counts : Counts forest tag node = true)
    (answered : view.position node tag = .ok position) :
    position.index =
        ((forest.before node).filter (Counts forest tag)).length + 1 ∧
      position.count = position.index +
        ((forest.after node).filter (Counts forest tag)).length := by
  simp only [TreeView.position, bind_eq_ok, liftM_eq_ok] at answered
  obtain ⟨parent, known, answered⟩ := answered
  have link := tells.parent known
  cases parent with
  | none =>
      simp only [pure_eq_ok] at answered
      simp [← answered, Forest.before, Forest.after, ← link]
  | some parent =>
      simp only [bind_eq_ok, liftM_eq_ok, pure_eq_ok] at answered
      obtain ⟨children, listed, counted, collected, rfl⟩ := answered
      have inOrder : counted =
          (forest.before node).filter (Counts forest tag) ++
            node :: (forest.after node).filter (Counts forest tag) := by
        rw [tells.countedElements collected, tells.children listed,
          consistent.children_eq link.symm, List.filter_append,
          List.filter_cons_of_pos counts]
      have absent : node ∉ (forest.after node).filter (Counts forest tag) := by
        intro member
        exact consistent.not_mem_before_self node
          (consistent.mem_after_iff.mp (List.mem_filter.mp member).1)
      rw [inOrder, lastIndex_split absent]
      refine ⟨rfl, ?_⟩
      simp only [List.length_append, List.length_cons]
      omega

end TreeView

namespace Matching

variable {ν : Type} [DecidableEq ν] {view : TreeView ν} {forest : Forest ν}
  {node : ν} {tag : String}

section

variable (tells : view.Tells forest) (consistent : forest.Consistent)
  (own : forest.tag node = some tag)
include tells consistent own

/-- The position among all sibling elements. -/
theorem position_none {position : TreeView.Position}
    (answered : view.position node none = .ok position) :
    position.index = (Counting.children.passed forest node).length + 1 ∧
      position.count = position.index +
        (Counting.childrenFromEnd.passed forest node).length := by
  have counts : TreeView.Counts forest none node = true := by
    rw [TreeView.counts_none, Forest.isElement, own, Option.isSome_some]
  have place := tells.position consistent counts answered
  rw [TreeView.counts_none] at place
  exact place

/-- The position among the sibling elements with the same tag. -/
theorem position_some {position : TreeView.Position}
    (answered : view.position node (some tag) = .ok position) :
    position.index = (Counting.ofType.passed forest node).length + 1 ∧
      position.count = position.index +
        (Counting.ofTypeFromEnd.passed forest node).length := by
  have counts : TreeView.Counts forest (some tag) node = true := by
    simp [TreeView.Counts, own, Text.sameFolded]
  have place := tells.position consistent counts answered
  rw [TreeView.counts_some own] at place
  exact place

theorem counted_eq {counting : Counting} {position : Nat}
    (answered : counted view node tag counting = .ok position) :
    position = (counting.passed forest node).length + 1 := by
  cases counting with
  | children =>
      simp only [counted, bind_eq_ok, pure_eq_ok] at answered
      obtain ⟨position, found, rfl⟩ := answered
      exact (position_none tells consistent own found).1
  | childrenFromEnd =>
      simp only [counted, bind_eq_ok, pure_eq_ok] at answered
      obtain ⟨position, found, rfl⟩ := answered
      have place := position_none tells consistent own found
      simp only [TreeView.Position.fromEnd]
      omega
  | ofType =>
      simp only [counted, bind_eq_ok, pure_eq_ok] at answered
      obtain ⟨position, found, rfl⟩ := answered
      exact (position_some tells consistent own found).1
  | ofTypeFromEnd =>
      simp only [counted, bind_eq_ok, pure_eq_ok] at answered
      obtain ⟨position, found, rfl⟩ := answered
      have place := position_some tells consistent own found
      simp only [TreeView.Position.fromEnd]
      omega

end

private theorem leavesEmpty_iff (tells : view.Tells forest) {child : ν} {answer : Bool}
    (answered : leavesEmpty view child = .ok answer) :
    answer = true ↔ forest.tag child = none ∧
      ∀ text, forest.text child = some text → text = "" := by
  simp only [leavesEmpty, bind_eq_ok, liftM_eq_ok] at answered
  obtain ⟨name, known, answered⟩ := answered
  rw [← tells.tagName known]
  cases name with
  | some name =>
      simp only [Option.isSome_some, if_true, pure_eq_ok] at answered
      simp [← answered]
  | none =>
      simp only [Option.isSome_none, Bool.false_eq_true, if_false, bind_eq_ok,
        liftM_eq_ok, pure_eq_ok] at answered
      obtain ⟨text, content, rfl⟩ := answered
      rw [← tells.text content]
      cases text with
      | none => simp
      | some text => simp

private theorem allLeaveEmpty_iff (tells : view.Tells forest) {children : List ν}
    {answer : Bool} (answered : allLeaveEmpty view children = .ok answer) :
    answer = true ↔ ∀ child ∈ children, forest.tag child = none ∧
      ∀ text, forest.text child = some text → text = "" := by
  induction children with
  | nil =>
      simp only [allLeaveEmpty, pure_eq_ok] at answered
      simp [← answered]
  | cons child rest induction =>
      simp only [allLeaveEmpty, bind_eq_ok] at answered
      obtain ⟨first, known, answered⟩ := answered
      rw [List.forall_mem_cons, ← leavesEmpty_iff tells known]
      cases first with
      | true =>
          simp only [if_true] at answered
          simp [induction answered]
      | false =>
          simp only [Bool.false_eq_true, if_false, pure_eq_ok] at answered
          simp [← answered]

theorem plainHolds_iff (tells : view.Tells forest)
    (consistent : forest.Consistent) (own : forest.tag node = some tag)
    {pseudoClass : PlainClass} {answer : Bool}
    (answered : plainHolds view node tag pseudoClass = .ok answer) :
    answer = true ↔ pseudoClass.Holds forest node := by
  cases pseudoClass with
  | root =>
      simp only [plainHolds, bind_eq_ok, liftM_eq_ok] at answered
      obtain ⟨parent, known, answered⟩ := answered
      simp only [PlainClass.Holds, ← tells.parent known]
      cases parent with
      | none =>
          simp only [pure_eq_ok] at answered
          simp [← answered]
      | some parent =>
          simp only [bind_eq_ok, liftM_eq_ok, pure_eq_ok] at answered
          obtain ⟨name, named, rfl⟩ := answered
          simp [← tells.tagName named]
  | empty =>
      simp only [plainHolds, bind_eq_ok, liftM_eq_ok] at answered
      obtain ⟨children, known, answered⟩ := answered
      simp only [PlainClass.Holds, ← tells.children known]
      exact allLeaveEmpty_iff tells answered
  | firstChild =>
      simp only [plainHolds, bind_eq_ok, pure_eq_ok] at answered
      obtain ⟨position, found, rfl⟩ := answered
      have place := position_none tells consistent own found
      simp [PlainClass.Holds, place.1]
  | lastChild =>
      simp only [plainHolds, bind_eq_ok, pure_eq_ok] at answered
      obtain ⟨position, found, rfl⟩ := answered
      have place := position_none tells consistent own found
      simp [PlainClass.Holds, place.2]
  | onlyChild =>
      simp only [plainHolds, bind_eq_ok, pure_eq_ok] at answered
      obtain ⟨position, found, rfl⟩ := answered
      have place := position_none tells consistent own found
      rw [place.1] at place
      rw [PlainClass.Holds, decide_eq_true_iff, ← List.length_eq_zero_iff,
        ← List.length_eq_zero_iff]
      omega
  | firstOfType =>
      simp only [plainHolds, bind_eq_ok, pure_eq_ok] at answered
      obtain ⟨position, found, rfl⟩ := answered
      have place := position_some tells consistent own found
      simp [PlainClass.Holds, place.1]
  | lastOfType =>
      simp only [plainHolds, bind_eq_ok, pure_eq_ok] at answered
      obtain ⟨position, found, rfl⟩ := answered
      have place := position_some tells consistent own found
      simp [PlainClass.Holds, place.2]
  | onlyOfType =>
      simp only [plainHolds, bind_eq_ok, pure_eq_ok] at answered
      obtain ⟨position, found, rfl⟩ := answered
      have place := position_some tells consistent own found
      rw [place.1] at place
      rw [PlainClass.Holds, decide_eq_true_iff, ← List.length_eq_zero_iff,
        ← List.length_eq_zero_iff]
      omega
  | visited | hover | active | focus | focusWithin | focusVisible | target =>
      simp only [plainHolds, pure_eq_ok] at answered
      simp [← answered, PlainClass.Holds]

end Matching

end TreeSelectors
