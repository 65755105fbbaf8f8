import Mathlib.Data.Finset.Card
import TreeSelectors.CompiledSelector
import TreeSelectors.Proofs.Matching.Adequacy
import TreeSelectors.Proofs.Matching.Selecting
import TreeSelectors.Proofs.Tree.Loading
import TreeSelectors.Proofs.Tree.Walks

/-!
# Selecting from loaded trees

On a tree that was read from its notation, a selector accepts the elements that
its meaning asks for, and selecting lists the accepted ones in document order.
-/

namespace TreeSelectors

namespace Tree

/-- The notation of a paragraph with something bold in it. -/
def paragraphText : String :=
  "[\"element\",\"p\",\x7b\x7d,[[\"element\",\"b\"]]]"

/-- A paragraph with something bold in it. -/
def paragraph : Tree :=
  ⟨#[⟨.document, none, [1], none, none⟩,
    ⟨.element ⟨"p", .empty⟩, some 0, [2], none, none⟩,
    ⟨.element ⟨"b", .empty⟩, some 1, [], none, none⟩]⟩

theorem load_paragraph : load paragraphText = .ok paragraph := by
  decide +kernel

/-- The notation of a paragraph with something bold, a text, and something italic with
something bold in it. -/
def emphasisText : String :=
  "[\"element\",\"p\",\x7b\x7d,[" ++
    "[\"element\",\"b\"]," ++
    "[\"text\",\"-\"]," ++
    "[\"element\",\"i\",\x7b\x7d,[[\"element\",\"b\"]]]]]"

/-- The tree of that notation. -/
def emphasis : Tree :=
  ⟨#[⟨.document, none, [1], none, none⟩,
    ⟨.element ⟨"p", .empty⟩, some 0, [2, 3, 4], none, none⟩,
    ⟨.element ⟨"b", .empty⟩, some 1, [], some 3, none⟩,
    ⟨.text "-", some 1, [], some 4, some 2⟩,
    ⟨.element ⟨"i", .empty⟩, some 1, [5], none, some 3⟩,
    ⟨.element ⟨"b", .empty⟩, some 4, [], none, none⟩]⟩

theorem load_emphasis : load emphasisText = .ok emphasis := by
  decide +kernel

/-- From the document on, each node is asked about in turn. -/
theorem walk_emphasis {test : NodeId → Except MatchError Bool} {keep : NodeId → Bool}
    (asked : ∀ node < emphasis.size, test node = .ok (keep node)) :
    emphasis.view.walk test [(emphasis.view.longestPath, 0)] =
      .ok ([0, 1, 2, 3, 4, 5].filter keep) := by
  have size : emphasis.size = 6 := rfl
  have below : emphasis.view.children 0 = .ok [1] ∧
      emphasis.view.children 1 = .ok [2, 3, 4] ∧ emphasis.view.children 2 = .ok [] ∧
      emphasis.view.children 3 = .ok [] ∧ emphasis.view.children 4 = .ok [5] ∧
      emphasis.view.children 5 = .ok [] := by
    decide +kernel
  obtain ⟨document, paragraph, bold, text, italic, inner⟩ := below
  have longest : emphasis.view.longestPath = 7 := rfl
  rw [longest]
  refine TreeView.walk_kept (asked 0 (by omega)) document ?_
  refine TreeView.walk_kept (asked 1 (by omega)) paragraph ?_
  refine TreeView.walk_kept (asked 2 (by omega)) bold ?_
  refine TreeView.walk_kept (asked 3 (by omega)) text ?_
  refine TreeView.walk_kept (asked 4 (by omega)) italic ?_
  refine TreeView.walk_kept (asked 5 (by omega)) inner ?_
  show emphasis.view.walk test [] = .ok []
  rw [TreeView.walk]
  rfl

end Tree

/-! ## Single nodes -/

section

variable {text : String} {tree : Tree}

/-- An answer to whether a node of a loaded tree is an element that a selector
matches says whether the node satisfies the selector. -/
theorem Selector.accepts_iff_holds (loaded : Tree.load text = .ok tree)
    {selector : Selector} {maxDepth : Nat} {node : NodeId} {answer : Bool}
    (answered : selector.accepts tree.view maxDepth node = .ok answer) :
    answer = true ↔ Selector.Holds tree.forest selector node := by
  have rooted := Tree.rooted_of_load loaded
  exact Matching.accepts_iff rooted.linked.tells rooted.linked.consistent
    rooted.innerElements answered

/-- The bold element of the paragraph is a child of the paragraph. -/
theorem Selector.accepts_iff_holds_child :
    Tree.load Tree.paragraphText = .ok Tree.paragraph ∧
      Selector.accepts Tree.paragraph.view 2
        [⟨[.type "B"], [(.child, [.type "p"])], none⟩] 2 = .ok true ∧
      Selector.Holds Tree.paragraph.forest
        [⟨[.type "B"], [(.child, [.type "p"])], none⟩] 2 := by
  have answered : Selector.accepts Tree.paragraph.view 2
      [⟨[.type "B"], [(.child, [.type "p"])], none⟩] 2 = .ok true := by
    decide +kernel
  exact ⟨Tree.load_paragraph, answered,
    (accepts_iff_holds Tree.load_paragraph answered).mp rfl⟩

end

/-! ## All nodes below one -/

namespace CompiledSelector

variable {tree : Tree} {compiled : CompiledSelector} {node : NodeId}

/-- Elements with a tag that the filter stops are not accepted. -/
theorem passes_of_accepts (rooted : tree.Rooted)
    (accepted : compiled.accepts tree.view node = .ok true) :
    ∃ tag, tree.forest.tag node = some tag ∧
      compiled.filter.accepts tag = true := by
  have holds := (Matching.accepts_iff rooted.linked.tells
    rooted.linked.consistent rooted.innerElements accepted).mp rfl
  obtain ⟨⟨subject, left, anchor⟩, -, chainHolds⟩ :=
    Selector.holds_iff.mp holds
  rw [Chain.Holds] at chainHolds
  obtain ⟨tag, own⟩ := Option.isSome_iff_exists.mp chainHolds.1
  refine ⟨tag, own, ?_⟩
  rw [compiled.filter_eq]
  exact Prefilter.accepts_of_holds own holds

/-- The question that selecting asks about each node. -/
def tests (compiled : CompiledSelector) (tree : Tree) (node : NodeId) :
    Except MatchError Bool := do
  if (← tree.view.tagName node).any compiled.filter.accepts then
    Selector.accepts tree.view compiled.maxDepth compiled.selector node
  else
    return false

theorem select_eq_walk (compiled : CompiledSelector) (tree : Tree)
    (root : NodeId) :
    compiled.select tree.view root =
      tree.view.walk (compiled.tests tree) [(tree.size + 1, root)] :=
  rfl

theorem tagName_eq_ok (rooted : tree.Rooted) (inTree : node < tree.size) :
    tree.view.tagName node = .ok (tree.forest.tag node) :=
  rooted.linked.presents.tagName_eq (Finset.mem_range.mpr inTree)

/-- Selecting keeps exactly the nodes that are accepted. -/
theorem tests_eq_ok_true_iff (rooted : tree.Rooted) (inTree : node < tree.size) :
    compiled.tests tree node = .ok true ↔
      compiled.accepts tree.view node = .ok true := by
  have known := tagName_eq_ok rooted inTree
  rw [tests, bind_eq_ok]
  simp only [liftM_eq_ok, known, Except.ok.injEq, exists_eq_left']
  cases passes : (tree.forest.tag node).any compiled.filter.accepts with
  | true => rfl
  | false =>
      simp only [Bool.false_eq_true, if_false, pure_eq_ok, false_iff]
      intro accepted
      obtain ⟨tag, own, filtered⟩ := passes_of_accepts rooted accepted
      rw [own, Option.any_some, filtered] at passes
      cases passes

private theorem tests_answers (rooted : tree.Rooted) (inTree : node < tree.size)
    (answers : ∃ answer, compiled.accepts tree.view node = .ok answer) :
    ∃ answer, compiled.tests tree node = .ok answer := by
  simp only [tests, bind_eq_ok, liftM_eq_ok, tagName_eq_ok rooted inTree,
    Except.ok.injEq, exists_eq_left']
  cases (tree.forest.tag node).any compiled.filter.accepts with
  | true => exact answers
  | false => exact ⟨false, rfl⟩

theorem lt_size_of_place {root : NodeId} (inTree : root < tree.size)
    (place : node = root ∨ tree.forest.Above root node) : node < tree.size := by
  rcases place with rfl | above
  · exact inTree
  · obtain ⟨parent, link, -⟩ := Forest.Above.parent_iff.mp above
    exact Tree.lt_size_of_parent? link

/-- Whatever is selected is what is accepted, in document order. -/
theorem select_eq_filter_descendants (rooted : tree.Rooted) {root : NodeId}
    (inTree : root < tree.size) {found : List NodeId}
    (answered : compiled.select tree.view root = .ok found) :
    found = (root :: tree.descendants root).filter
      fun node => compiled.accepts tree.view node = .ok true := by
  have linked := rooted.linked
  have listed := linked.preorder root
  rw [select_eq_walk] at answered
  rw [linked.tells.walk_eq_filter answered listed]
  refine List.filter_congr fun node member => ?_
  obtain ⟨top, isRoot, place⟩ := (listed.mem_iff linked.consistent).mp member
  rw [List.mem_singleton] at isRoot
  subst isRoot
  exact decide_eq_decide.mpr
    (tests_eq_ok_true_iff rooted (lt_size_of_place inTree place))

private theorem not_accepts_of_stopped (rooted : tree.Rooted)
    (stopped : (tree.forest.tag node).any
      (Prefilter.ofSelector compiled.selector).accepts = false) :
    compiled.accepts tree.view node ≠ .ok true := by
  intro accepted
  obtain ⟨tag, own, filtered⟩ := passes_of_accepts rooted accepted
  rw [own, Option.any_some, ← compiled.filter_eq, filtered] at stopped
  cases stopped

theorem select_answers (rooted : tree.Rooted) {root : NodeId}
    (inTree : root < tree.size)
    (answers : ∀ node, node = root ∨ tree.forest.Above root node →
      ∃ answer, compiled.accepts tree.view node = .ok answer) :
    ∃ found, compiled.select tree.view root = .ok found := by
  have presents := rooted.linked.presents
  rw [select_eq_walk]
  refine presents.walk_arrives (presents.prepared_root (Finset.mem_range.mpr inTree)) ?_
  intro node reached
  have place : node = root ∨ tree.forest.Above root node := by
    simpa [Forest.Reached] using reached
  exact tests_answers rooted (lt_size_of_place inTree place) (answers node place)

/-- Selecting from a loaded tree lists the accepted nodes among a node and those
below it, each once and in document order; no node that the filter stops is
accepted; and if there is an answer for each of the nodes, there is one for
all. -/
theorem select_eq_filter {text : String} {tree : Tree}
    (loaded : Tree.load text = .ok tree) (compiled : CompiledSelector)
    {root : NodeId} (inTree : root < tree.size) :
    (∃ listing, tree.forest.Preorder [root] listing ∧ listing.Nodup ∧
      ∀ found, compiled.select tree.view root = .ok found →
        found = listing.filter
          fun node => compiled.accepts tree.view node = .ok true) ∧
    (∀ node, (tree.forest.tag node).any
        (Prefilter.ofSelector compiled.selector).accepts = false →
      compiled.accepts tree.view node ≠ .ok true) ∧
    ((∀ node, node = root ∨ tree.forest.Above root node →
        ∃ answer, compiled.accepts tree.view node = .ok answer) →
      ∃ found, compiled.select tree.view root = .ok found) := by
  have rooted := Tree.rooted_of_load loaded
  refine ⟨⟨root :: tree.descendants root, ?_, ?_, ?_⟩, ?_, ?_⟩
  · exact rooted.linked.preorder root
  · exact rooted.linked.descendants_nodup root
  · intro found answered
    exact select_eq_filter_descendants rooted inTree answered
  · intro node stopped
    exact not_accepts_of_stopped rooted stopped
  · intro answers
    exact select_answers rooted inTree answers

/-- The selector `b`, compiled. -/
def bold : CompiledSelector :=
  { source := "b", selector := [⟨[.type "b"], [], none⟩], maxDepth := 1 }

/-- From the document on, the two bold elements are selected in document order, and the
filter stops everything else. -/
theorem select_eq_filter_bold :
    Tree.load Tree.emphasisText = .ok Tree.emphasis ∧ 0 < Tree.emphasis.size ∧
      bold.select Tree.emphasis.view 0 = .ok [2, 5] ∧
      (∃ listing, Tree.emphasis.forest.Preorder [0] listing ∧ listing.Nodup ∧
        [2, 5] = listing.filter
          fun node => bold.accepts Tree.emphasis.view node = .ok true) ∧
      ∀ node ∈ [0, 1, 3, 4],
        (Tree.emphasis.forest.tag node).any
            (Prefilter.ofSelector bold.selector).accepts = false ∧
          bold.accepts Tree.emphasis.view node ≠ .ok true := by
  have asked : ∀ node < Tree.emphasis.size,
      bold.tests Tree.emphasis node = .ok (node == 2 || node == 5) := by
    decide +kernel
  have selected : bold.select Tree.emphasis.view 0 = .ok [2, 5] :=
    Tree.walk_emphasis asked
  have inTree : 0 < Tree.emphasis.size := by decide
  obtain ⟨⟨listing, listed, once, kept⟩, stops, -⟩ :=
    select_eq_filter Tree.load_emphasis bold inTree
  have stopped : ∀ node ∈ [0, 1, 3, 4], (Tree.emphasis.forest.tag node).any
      (Prefilter.ofSelector bold.selector).accepts = false := by
    decide +kernel
  exact ⟨Tree.load_emphasis, inTree, selected, ⟨listing, listed, once, kept _ selected⟩,
    fun node member => ⟨stopped node member, stops node (stopped node member)⟩⟩

end CompiledSelector

end TreeSelectors
