import TreeSelectors.Proofs.Matching.Depth
import TreeSelectors.Proofs.Matching.Selecting
import TreeSelectors.Proofs.Selection

/-!
# Laws of the logical pseudo-classes

What is selected are the nodes that satisfy the selector, in document order.  So the laws
of `:is()`, `:not()` and lists of alternatives carry over from the meaning of selectors
to what they select, although each of them is selected with a filter of its own and
matched at a depth of its own.
-/

namespace TreeSelectors

namespace Selector

/-- The selector of one pseudo-class, with another selector as its argument. -/
def enclosedBy (argument : Selector) (function : SelectorFunction) : Selector :=
  [⟨[.functional function argument], [], none⟩]

section

variable {ν : Type} [DecidableEq ν] {forest : Forest ν} {selector : Selector} {node : ν}

@[simp] theorem holds_enclosedBy_is_iff :
    Selector.Holds forest (selector.enclosedBy .is) node ↔
      Selector.Holds forest selector node :=
  holds_is_iff.trans (and_iff_right_of_imp isElement_of_holds)

@[simp] theorem holds_enclosedBy_not_iff :
    Selector.Holds forest (selector.enclosedBy .not) node ↔
      forest.isElement node ∧ ¬ Selector.Holds forest selector node :=
  holds_not_iff

theorem holds_enclosedBy_not_not_iff :
    Selector.Holds forest ((selector.enclosedBy .not).enclosedBy .not) node ↔
      Selector.Holds forest selector node := by
  rw [holds_enclosedBy_not_iff, holds_enclosedBy_not_iff]
  constructor
  · rintro ⟨element, either⟩
    exact Classical.byContradiction fun refused => either ⟨element, refused⟩
  · intro holds
    exact ⟨isElement_of_holds holds, fun refused => refused.2 holds⟩

end

/-! ## Selecting by meaning -/

section

variable {ν : Type} [DecidableEq ν] {view : TreeView ν} {forest : Forest ν}
  (tells : view.Tells forest) (consistent : forest.Consistent)
  (inner : forest.InnerElements) {selector : Selector} {maxDepth : Nat}

include tells consistent inner

/-- The filter and the matching answer together whether a node satisfies the selector. -/
theorem tests_iff {node : ν} {answer : Bool}
    (answered : selector.tests view maxDepth node = .ok answer) :
    answer = true ↔ Selector.Holds forest selector node := by
  simp only [tests, bind_eq_ok, liftM_eq_ok] at answered
  obtain ⟨tag, known, answered⟩ := answered
  have own := tells.tagName known
  cases tag with
  | none =>
      cases answered
      refine iff_of_false Bool.false_ne_true fun holds => ?_
      have element := isElement_of_holds holds
      rw [Forest.isElement, ← own] at element
      cases element
  | some tag =>
      rw [Option.any_some] at answered
      cases passes : (Prefilter.ofSelector selector).accepts tag with
      | true =>
          rw [passes, if_pos rfl] at answered
          exact Matching.accepts_iff tells consistent inner answered
      | false =>
          rw [passes] at answered
          cases answered
          refine iff_of_false Bool.false_ne_true fun holds => ?_
          rw [Prefilter.accepts_of_holds own.symm holds] at passes
          cases passes

open Classical in
/-- What is selected is the document order without the nodes that do not satisfy the
selector. -/
theorem select_eq_filter_holds {root : ν} {found listing : List ν}
    (listed : forest.Preorder [root] listing)
    (answered : selector.select view maxDepth (.ofSelector selector) root = .ok found) :
    found = listing.filter fun node => Selector.Holds forest selector node := by
  rw [select_eq_collect] at answered
  rw [tells.walk_eq_filter answered listed]
  refine List.filter_congr fun node member => decide_eq_decide.mpr ?_
  have reached : forest.Reached [(view.longestPath, root)] node := by
    simpa [Forest.Reached] using (listed.mem_iff consistent).mp member
  obtain ⟨answer, tested⟩ := tells.walk_tested consistent answered reached
  rw [← tests_iff tells consistent inner tested, tested, Except.ok.injEq]

end

end Selector

/-! ## Loaded trees -/

namespace Tree

/-- What a selector, with a filter of its own, selects at or below a node. -/
def selects (tree : Tree) (maxDepth : Nat) (root : NodeId) (selector : Selector) :
    Except MatchError (List NodeId) :=
  selector.select tree.view maxDepth (.ofSelector selector) root

open Classical in
/-- The nodes that satisfy a selector among a node and those below it, in document
order. -/
noncomputable def satisfying (tree : Tree) (root : NodeId) (selector : Selector) :
    List NodeId :=
  (root :: tree.descendants root).filter fun node =>
    Selector.Holds tree.forest selector node

variable {tree : Tree} {root : NodeId} {selector other : Selector} {maxDepth : Nat}

theorem mem_satisfying_iff {node : NodeId} :
    node ∈ tree.satisfying root selector ↔
      node ∈ root :: tree.descendants root ∧
        Selector.Holds tree.forest selector node := by
  simp only [satisfying, List.mem_filter, decide_eq_true_eq]

private theorem satisfying_congr (same : ∀ node,
    Selector.Holds tree.forest selector node ↔ Selector.Holds tree.forest other node) :
    tree.satisfying root selector = tree.satisfying root other := by
  classical
  exact List.filter_congr fun node _ => decide_eq_decide.mpr (same node)

namespace Rooted

variable (rooted : tree.Rooted) (inTree : root < tree.size)

include rooted inTree

/-- Nothing but the limit on the depth keeps a selector from selecting what satisfies
it. -/
theorem selects_eq_satisfying
    (fits : ∀ limit, tree.selects maxDepth root selector ≠ .error (.depthExceeded limit)) :
    tree.selects maxDepth root selector = .ok (tree.satisfying root selector) := by
  have linked := rooted.linked
  have gives : Gives (fun failure => failure ≠ .depthExceeded maxDepth) (fun _ => True)
      (tree.selects maxDepth root selector) :=
    linked.presents.select_gives (Finset.mem_range.mpr inTree)
      (fun exceeded => exceeded rfl) selector _
  cases run : tree.selects maxDepth root selector with
  | ok found =>
      rw [Selector.select_eq_filter_holds linked.tells linked.consistent
        rooted.innerElements (linked.preorder root) run]
      rfl
  | error failure =>
      rw [run] at gives fits
      exact absurd (congrArg Except.error (Decidable.not_not.mp gives)) (fits maxDepth)

private theorem selects_of_depth_le (enough : Selector.depth selector ≤ maxDepth)
    (limit : Nat) :
    tree.selects maxDepth root selector ≠ .error (.depthExceeded limit) := by
  intro failed
  let compiled : CompiledSelector := { source := "", selector, maxDepth }
  have answers : ∃ found, compiled.select tree.view root = .ok found :=
    CompiledSelector.select_answers rooted inTree fun node place =>
      rooted.linked.presents.exists_accepts
        (Finset.mem_range.mpr (CompiledSelector.lt_size_of_place inTree place)) enough
  obtain ⟨found, answered⟩ := answers
  cases failed.symm.trans answered

end Rooted

end Tree

/-- As long as no run goes deeper than the limit, a selector, `:is()` over it and
`:not(:not())` over it select the same list; `:is()` over two selectors, and their list
of alternatives, select what one of them selects; and a selector and `:not()` over it
divide the elements between them.  All lists are in document order and have each node
once. -/
theorem Selector.selects_logical {text : String} {tree : Tree}
    (loaded : Tree.load text = .ok tree) {root : NodeId} (inTree : root < tree.size)
    {maxDepth : Nat} (first second : Selector)
    (fits : ∀ selector ∈ [first, first.enclosedBy .is,
        (first.enclosedBy .not).enclosedBy .not, second,
        Selector.enclosedBy (first ++ second) .is, first ++ second,
        first.enclosedBy .not],
      ∀ limit, tree.selects maxDepth root selector ≠ .error (.depthExceeded limit)) :
    ∃ listing, tree.forest.Preorder [root] listing ∧ listing.Nodup ∧
      ∃ found other both rest,
        (∀ selector ∈ [first, first.enclosedBy .is,
            (first.enclosedBy .not).enclosedBy .not],
          tree.selects maxDepth root selector = .ok found) ∧
        tree.selects maxDepth root second = .ok other ∧
        (∀ selector ∈ [Selector.enclosedBy (first ++ second) .is, first ++ second],
          tree.selects maxDepth root selector = .ok both) ∧
        tree.selects maxDepth root (first.enclosedBy .not) = .ok rest ∧
        (∀ nodes ∈ [found, other, both, rest], nodes.Sublist listing) ∧
        (∀ node, node ∈ both ↔ node ∈ found ∨ node ∈ other) ∧
        (∀ node, node ∈ listing ∧ tree.forest.isElement node ↔
          node ∈ found ∨ node ∈ rest) ∧
        ∀ node ∈ found, node ∉ rest := by
  have rooted := Tree.rooted_of_load loaded
  have runs := fun selector member =>
    rooted.selects_eq_satisfying inTree (fits selector member)
  simp only [List.forall_mem_cons, List.not_mem_nil, false_implies, implies_true,
    and_true] at runs ⊢
  obtain ⟨one, wrapped, doubled, two, wrappedBoth, list, refused⟩ := runs
  refine ⟨root :: tree.descendants root, rooted.linked.preorder root,
    rooted.linked.descendants_nodup root,
    tree.satisfying root first, tree.satisfying root second,
    tree.satisfying root (first ++ second), tree.satisfying root (first.enclosedBy .not),
    ⟨one, ?_, ?_⟩, two, ⟨?_, list⟩, refused, ?_, ?_, ?_, ?_⟩
  · rw [wrapped, Tree.satisfying_congr fun node => holds_enclosedBy_is_iff]
  · rw [doubled, Tree.satisfying_congr fun node => holds_enclosedBy_not_not_iff]
  · rw [wrappedBoth, Tree.satisfying_congr fun node => holds_enclosedBy_is_iff]
  · exact ⟨List.filter_sublist, List.filter_sublist, List.filter_sublist,
      List.filter_sublist⟩
  · intro node
    simp only [Tree.mem_satisfying_iff, holds_append_iff, and_or_left]
  · intro node
    simp only [Tree.mem_satisfying_iff, holds_enclosedBy_not_iff, ← and_or_left]
    refine and_congr_right fun _ => ?_
    constructor
    · exact fun element => (Classical.em _).imp_right fun refused => ⟨element, refused⟩
    · rintro (holds | ⟨element, -⟩)
      · exact isElement_of_holds holds
      · exact element
  · intro node member refused
    rw [Tree.mem_satisfying_iff] at member refused
    exact (holds_enclosedBy_not_iff.mp refused.2).2 member.2

/-- The selector `p > B`. -/
def boldChild : Selector :=
  [⟨[.type "B"], [(.child, [.type "p"])], none⟩]

/-- The selector `:root`. -/
def rootClass : Selector :=
  [⟨[.plain .root], [], none⟩]

/-- From the document on, `p > B`, `:is(p > B)` and `:not(:not(p > B))` select the bold
element in the paragraph, `:root` selects the paragraph, both lists of alternatives select
the paragraph and then the bold element, and `:not(p > B)` selects all other elements. -/
theorem Selector.selects_logical_bold :
    Tree.load Tree.emphasisText = .ok Tree.emphasis ∧ 0 < Tree.emphasis.size ∧
      (∀ selector ∈ [boldChild, boldChild.enclosedBy .is,
          (boldChild.enclosedBy .not).enclosedBy .not, rootClass,
          Selector.enclosedBy (boldChild ++ rootClass) .is, boldChild ++ rootClass,
          boldChild.enclosedBy .not],
        ∀ limit, Tree.emphasis.selects 4 0 selector ≠ .error (.depthExceeded limit)) ∧
      (∀ selector ∈ [boldChild, boldChild.enclosedBy .is,
          (boldChild.enclosedBy .not).enclosedBy .not],
        Tree.emphasis.selects 4 0 selector = .ok [2]) ∧
      Tree.emphasis.selects 4 0 rootClass = .ok [1] ∧
      (∀ selector ∈ [Selector.enclosedBy (boldChild ++ rootClass) .is,
          boldChild ++ rootClass],
        Tree.emphasis.selects 4 0 selector = .ok [1, 2]) ∧
      Tree.emphasis.selects 4 0 (boldChild.enclosedBy .not) = .ok [1, 4, 5] ∧
      ∃ listing, Tree.emphasis.forest.Preorder [0] listing ∧
        ∀ node, node ∈ listing ∧ Tree.emphasis.forest.isElement node ↔
          node ∈ [2] ∨ node ∈ [1, 4, 5] := by
  have inTree : 0 < Tree.emphasis.size := by decide
  have rooted := Tree.rooted_of_load Tree.load_emphasis
  have shallow : ∀ selector ∈ [boldChild, boldChild.enclosedBy .is,
      (boldChild.enclosedBy .not).enclosedBy .not, rootClass,
      Selector.enclosedBy (boldChild ++ rootClass) .is, boldChild ++ rootClass,
      boldChild.enclosedBy .not], Selector.depth selector ≤ 4 := by
    decide
  have fits := fun selector member =>
    rooted.selects_of_depth_le inTree (shallow selector member)
  have selects {selector : Selector} {keep : NodeId → Bool}
      (asked : ∀ node < Tree.emphasis.size,
        selector.tests Tree.emphasis.view 4 node = .ok (keep node)) :
      Tree.emphasis.selects 4 0 selector = .ok ([0, 1, 2, 3, 4, 5].filter keep) :=
    Tree.walk_emphasis asked
  have child : Tree.emphasis.selects 4 0 boldChild = .ok [2] :=
    @selects _ (· == 2) (by decide +kernel)
  have top : Tree.emphasis.selects 4 0 rootClass = .ok [1] :=
    @selects _ (· == 1) (by decide +kernel)
  have either : Tree.emphasis.selects 4 0 (boldChild ++ rootClass) = .ok [1, 2] :=
    @selects _ ([1, 2].contains ·) (by decide +kernel)
  have neither : Tree.emphasis.selects 4 0 (boldChild.enclosedBy .not) = .ok [1, 4, 5] :=
    @selects _ ([1, 4, 5].contains ·) (by decide +kernel)
  obtain ⟨listing, listed, -, found, _, both, rest, same, -, merged, refused, -,
    -, divided, -⟩ := selects_logical Tree.load_emphasis inTree boldChild rootClass fits
  obtain rfl : [2] = found :=
    Except.ok.inj (child.symm.trans (same boldChild List.mem_cons_self))
  obtain rfl : [1, 2] = both :=
    Except.ok.inj (either.symm.trans (merged (boldChild ++ rootClass) (by simp)))
  obtain rfl : [1, 4, 5] = rest := Except.ok.inj (neither.symm.trans refused)
  exact ⟨Tree.load_emphasis, inTree, fits, same, top, merged, refused, listing, listed,
    divided⟩

end TreeSelectors
