import Mathlib.Data.List.Forall2
import TreeSelectors.Proofs.Matching.Exhaustive
import TreeSelectors.Proofs.Matching.Selecting

/-!
# The order inside a selector

The chains of a selector and the conditions of a compound may stand in any order, at any
level of nesting.  A selector that is reordered asks the view other questions, since
matching stops where something is decided, and so it may fail where the original does not.
But it never answers differently, and neither does its filter.
-/

namespace TreeSelectors

/-! ## Permutations of related items -/

/-- The second list is a permutation of items that are related to those of the first
one. -/
def PermutedBy {α : Type} (related : α → α → Prop) (items others : List α) : Prop :=
  ∃ middle, List.Forall₂ related items middle ∧ middle.Perm others

namespace PermutedBy

variable {α : Type} {related : α → α → Prop} {item : α} {rest items others : List α}

@[simp] theorem nil_iff : PermutedBy related [] others ↔ others = [] := by
  constructor
  · intro permuted
    obtain ⟨middle, pairs, permuted⟩ := permuted
    obtain rfl := List.forall₂_nil_left_iff.mp pairs
    exact permuted.symm.eq_nil
  · rintro rfl
    exact ⟨[], .nil, .refl _⟩

theorem cons_iff : PermutedBy related (item :: rest) others ↔
    ∃ counterpart remaining, (counterpart :: remaining).Perm others ∧
      related item counterpart ∧ PermutedBy related rest remaining := by
  constructor
  · intro permuted
    obtain ⟨middle, pairs, permuted⟩ := permuted
    obtain ⟨counterpart, remaining, first, inner, rfl⟩ :=
      List.forall₂_cons_left_iff.mp pairs
    exact ⟨counterpart, remaining, permuted, first, remaining, inner, .refl _⟩
  · intro parts
    obtain ⟨counterpart, remaining, permuted, first, middle, pairs, inner⟩ := parts
    exact ⟨counterpart :: middle, .cons first pairs, (inner.cons _).trans permuted⟩

theorem of_perm (reflexive : ∀ item, related item item) (permuted : items.Perm others) :
    PermutedBy related items others :=
  ⟨items, List.forall₂_same.mpr fun item _ => reflexive item, permuted⟩

/-- Every item has a counterpart. -/
theorem forth (permuted : PermutedBy related items others) :
    ∀ item ∈ items, ∃ other ∈ others, related item other := by
  induction items generalizing others with
  | nil => simp
  | cons first rest induction =>
      obtain ⟨counterpart, remaining, whole, isFirst, inner⟩ := cons_iff.mp permuted
      refine List.forall_mem_cons.mpr ⟨⟨counterpart, ?_, isFirst⟩, fun item member => ?_⟩
      · exact whole.mem_iff.mp List.mem_cons_self
      · obtain ⟨other, isOther, relates⟩ := induction inner item member
        exact ⟨other, whole.mem_iff.mp (List.mem_cons_of_mem _ isOther), relates⟩

/-- Every item is the counterpart of one. -/
theorem back (permuted : PermutedBy related items others) :
    ∀ other ∈ others, ∃ item ∈ items, related item other := by
  induction items generalizing others with
  | nil =>
      obtain rfl := nil_iff.mp permuted
      simp
  | cons first rest induction =>
      obtain ⟨counterpart, remaining, whole, isFirst, inner⟩ := cons_iff.mp permuted
      intro other member
      rcases List.mem_cons.mp (whole.mem_iff.mpr member) with rfl | member
      · exact ⟨first, List.mem_cons_self, isFirst⟩
      · obtain ⟨item, isItem, relates⟩ := induction inner other member
        exact ⟨item, List.mem_cons_of_mem _ isItem, relates⟩

section

variable {ε : Type} {test second : α → Except ε Bool}
  (agrees : ∀ item other, related item other → Agrees (test item) (second other))
include agrees

/-- Questions that agree on related items agree on permutations of them. -/
theorem anyM_agrees (permuted : PermutedBy related items others) :
    Agrees (items.anyM test) (others.anyM second) := by
  refine .anyM (fun item member _ => ?_) fun other member _ => ?_
  · obtain ⟨other, isOther, relates⟩ := permuted.forth item member
    exact ⟨other, isOther, agrees item other relates⟩
  · obtain ⟨item, isItem, relates⟩ := permuted.back other member
    exact ⟨item, isItem, agrees item other relates⟩

private theorem allM_agrees (permuted : PermutedBy related items others) :
    Agrees (items.allM test) (others.allM second) := by
  refine .allM (fun item member => ?_) fun other member => ?_
  · obtain ⟨other, isOther, relates⟩ := permuted.forth item member
    exact ⟨other, isOther, agrees item other relates⟩
  · obtain ⟨item, isItem, relates⟩ := permuted.back other member
    exact ⟨item, isItem, agrees item other relates⟩

end

end PermutedBy

/-! ## Reordered selectors -/

mutual

/-- The same condition, with the argument of a functional pseudo-class reordered. -/
def Simple.Reordered : Simple → Simple → Prop
  | .functional function argument, other =>
      ∃ counterpart, other = .functional function counterpart ∧
        Selector.Reordered argument counterpart
  | simple, other => simple = other

/-- The conditions of a compound in any order, each of them reordered. -/
def Compound.Reordered : List Simple → List Simple → Prop
  | [], other => other = []
  | simple :: rest, other =>
      ∃ counterpart remaining, (counterpart :: remaining).Perm other ∧
        simple.Reordered counterpart ∧ Compound.Reordered rest remaining

/-- The same combinators in the same order, each compound reordered. -/
def Chain.ReorderedLeft :
    List (Combinator × List Simple) → List (Combinator × List Simple) → Prop
  | [], other => other = []
  | (combinator, compound) :: further, other =>
      ∃ counterpart others, other = (combinator, counterpart) :: others ∧
        Compound.Reordered compound counterpart ∧ Chain.ReorderedLeft further others

def Chain.Reordered : Chain → Chain → Prop
  | ⟨subject, left, anchor⟩, other =>
      Compound.Reordered subject other.subject ∧
        Chain.ReorderedLeft left other.left ∧ anchor = other.anchor

/-- The chains of a selector in any order, each of them reordered. -/
def Selector.Reordered : List Chain → List Chain → Prop
  | [], other => other = []
  | chain :: rest, other =>
      ∃ counterpart remaining, (counterpart :: remaining).Perm other ∧
        chain.Reordered counterpart ∧ Selector.Reordered rest remaining

end

mutual

theorem Simple.Reordered.refl (simple : Simple) : simple.Reordered simple := by
  cases simple with
  | functional function argument =>
      rw [Simple.Reordered]
      exact ⟨argument, rfl, Selector.Reordered.refl argument⟩
  | _ => simp [Simple.Reordered]

theorem Compound.Reordered.refl (compound : List Simple) :
    Compound.Reordered compound compound := by
  cases compound with
  | nil => simp [Compound.Reordered]
  | cons simple rest =>
      rw [Compound.Reordered]
      exact ⟨simple, rest, .refl _, Simple.Reordered.refl simple,
        Compound.Reordered.refl rest⟩

theorem Chain.ReorderedLeft.refl (left : List (Combinator × List Simple)) :
    Chain.ReorderedLeft left left := by
  match left with
  | [] => simp [Chain.ReorderedLeft]
  | (combinator, compound) :: further =>
      rw [Chain.ReorderedLeft]
      exact ⟨compound, further, rfl, Compound.Reordered.refl compound,
        Chain.ReorderedLeft.refl further⟩

theorem Chain.Reordered.refl (chain : Chain) : chain.Reordered chain := by
  match chain with
  | ⟨subject, left, anchor⟩ =>
      rw [Chain.Reordered]
      exact ⟨Compound.Reordered.refl subject, Chain.ReorderedLeft.refl left, rfl⟩

theorem Selector.Reordered.refl (selector : List Chain) :
    Selector.Reordered selector selector := by
  cases selector with
  | nil => simp [Selector.Reordered]
  | cons chain rest =>
      rw [Selector.Reordered]
      exact ⟨chain, rest, .refl _, Chain.Reordered.refl chain,
        Selector.Reordered.refl rest⟩

end

theorem Compound.reordered_iff {compound other : Compound} :
    Compound.Reordered compound other ↔ PermutedBy Simple.Reordered compound other := by
  induction compound generalizing other with
  | nil => rw [Compound.Reordered, PermutedBy.nil_iff]
  | cons simple rest induction =>
      rw [Compound.Reordered, PermutedBy.cons_iff]
      simp only [induction]

theorem Selector.reordered_iff {selector other : Selector} :
    Selector.Reordered selector other ↔ PermutedBy Chain.Reordered selector other := by
  induction selector generalizing other with
  | nil => rw [Selector.Reordered, PermutedBy.nil_iff]
  | cons chain rest induction =>
      rw [Selector.Reordered, PermutedBy.cons_iff]
      simp only [induction]

theorem Compound.Reordered.of_perm {compound other : Compound}
    (permuted : compound.Perm other) : Compound.Reordered compound other :=
  Compound.reordered_iff.mpr (.of_perm Simple.Reordered.refl permuted)

theorem Selector.Reordered.of_perm {selector other : Selector}
    (permuted : selector.Perm other) : Selector.Reordered selector other :=
  Selector.reordered_iff.mpr (.of_perm Chain.Reordered.refl permuted)

theorem Chain.reordered_iff {chain other : Chain} :
    chain.Reordered other ↔
      Compound.Reordered chain.subject other.subject ∧
        Chain.ReorderedLeft chain.left other.left ∧ chain.anchor = other.anchor := by
  obtain ⟨subject, left, anchor⟩ := chain
  rw [Chain.Reordered]

/-- Types are not changed. -/
theorem Simple.reordered_type_iff {simple : Simple} {name : String} :
    simple.Reordered (.type name) ↔ simple = .type name := by
  cases simple <;> simp [Simple.Reordered]

private theorem Simple.Reordered.type_eq {simple : Simple} {name : String}
    (reordered : (Simple.type name).Reordered simple) : simple = .type name := by
  rw [Simple.Reordered] at reordered
  · exact reordered.symm
  · exact nofun

private theorem Chain.ReorderedLeft.isEmpty_eq {left other : List (Combinator × Compound)}
    (reordered : Chain.ReorderedLeft left other) : left.isEmpty = other.isEmpty := by
  cases left with
  | nil =>
      rw [Chain.ReorderedLeft] at reordered
      rw [reordered]
  | cons pair further =>
      rw [Chain.ReorderedLeft] at reordered
      obtain ⟨counterpart, others, rfl, -⟩ := reordered
      rfl

/-! ## Reordered questions -/

namespace Matching

variable {ν : Type} [DecidableEq ν]

/-- A matcher agrees with itself on compounds that are reordered. -/
def AgreesReordered (attempt : ChainMatcher ν) : Prop :=
  ∀ {compound other left leftOther}, Compound.Reordered compound other →
    Chain.ReorderedLeft left leftOther → ∀ node scope,
      Agrees (attempt compound left node scope) (attempt other leftOther node scope)

section

variable {attempt : ChainMatcher ν} (agrees : AgreesReordered attempt)
include agrees

omit [DecidableEq ν] in
private theorem anyChain_reordered {selector other : Selector}
    (reordered : Selector.Reordered selector other) (node : ν) :
    Agrees (anyChain attempt node selector) (anyChain attempt node other) := by
  rw [anyChain_eq_anyM, anyChain_eq_anyM]
  refine (Selector.reordered_iff.mp reordered).anyM_agrees fun chain counterpart related => ?_
  obtain ⟨subject, left, -⟩ := Chain.reordered_iff.mp related
  exact isMatched_agrees (agrees subject left node none)

omit [DecidableEq ν] in
private theorem anyCandidate_reordered {chain counterpart : Chain}
    (reordered : chain.Reordered counterpart) (scope : Scope ν) (choices : List ν) :
    Agrees (anyCandidate attempt chain scope choices)
      (anyCandidate attempt counterpart scope choices) := by
  obtain ⟨subject, left, -⟩ := Chain.reordered_iff.mp reordered
  have agree (choice : ν) := isMatched_agrees (agrees subject left choice scope)
  rw [anyCandidate_eq_anyM, anyCandidate_eq_anyM]
  exact .anyM (fun choice member _ => ⟨choice, member, agree choice⟩)
    fun choice member _ => ⟨choice, member, agree choice⟩

variable (view : TreeView ν)

private theorem has_reordered {selector other : Selector}
    (reordered : Selector.Reordered selector other) (node : ν) :
    Agrees (has view attempt node selector) (has view attempt node other) := by
  rw [has_eq_anyM, has_eq_anyM]
  refine (Selector.reordered_iff.mp reordered).anyM_agrees fun chain counterpart related => ?_
  -- The region depends on the anchor and on whether there is a combinator, which stay.
  obtain ⟨-, left, anchor⟩ := Chain.reordered_iff.mp related
  rw [← anchor, ← left.isEmpty_eq]
  exact (Agrees.refl _).bind fun choices => anyCandidate_reordered agrees related _ choices

private theorem simpleHolds_reordered {simple other : Simple}
    (reordered : simple.Reordered other)
    (node : ν) (tag : String) :
    Agrees (simpleHolds view attempt node tag simple)
      (simpleHolds view attempt node tag other) := by
  cases simple with
  | functional function argument =>
      rw [Simple.Reordered] at reordered
      obtain ⟨counterpart, rfl, inner⟩ := reordered
      cases function with
      | is => exact anyChain_reordered agrees inner node
      | not => exact (anyChain_reordered agrees inner node).bind fun _ => .refl _
      | has => exact has_reordered agrees view inner node
  | _ =>
      obtain rfl := by simpa [Simple.Reordered] using reordered
      exact .refl _

private theorem compoundHolds_reordered {compound other : Compound}
    (reordered : Compound.Reordered compound other) (node : ν) :
    Agrees (compoundHolds view attempt compound node)
      (compoundHolds view attempt other node) := by
  refine (Agrees.refl _).bind fun tag => ?_
  cases tag with
  | none => exact .refl _
  | some tag =>
      dsimp only
      rw [allHold_eq_allM, allHold_eq_allM]
      exact (Compound.reordered_iff.mp reordered).allM_agrees fun _ _ related =>
        simpleHolds_reordered agrees view related node tag

end

omit [DecidableEq ν] in
private theorem search_agrees {first second : ν → Except MatchError Attempt}
    (agrees : ∀ choice, Agrees (first choice) (second choice)) (combinator : Combinator)
    (choices : List ν) :
    Agrees (search first combinator choices) (search second combinator choices) := by
  induction choices with
  | nil => exact .refl _
  | cons choice rest induction =>
      refine (agrees choice).bind fun outcome => ?_
      split
      · exact .refl _
      · exact induction

/-- By induction on the levels that are left, attempts do not answer differently on
compounds that are reordered. -/
theorem attempt_agreesReordered (view : TreeView ν) (limit remaining : Nat) :
    AgreesReordered (attempt view limit remaining) := by
  induction remaining with
  | zero => exact fun _ _ _ _ _ _ answered => absurd answered attempt_zero_ne_ok
  | succ remaining induction =>
      intro compound other left leftOther reordered reorderedLeft node scope
      refine (compoundHolds_reordered induction view reordered node).bind fun holds => ?_
      cases holds with
      | false => exact .refl _
      | true =>
          simp only [if_true]
          cases left with
          | nil =>
              rw [Chain.ReorderedLeft] at reorderedLeft
              rw [reorderedLeft]
              exact .refl _
          | cons pair further =>
              rw [Chain.ReorderedLeft] at reorderedLeft
              obtain ⟨counterpart, others, rfl, next, rest⟩ := reorderedLeft
              refine (Agrees.refl _).bind fun choices => ?_
              exact search_agrees (fun choice => induction next rest choice scope) _ choices

end Matching

namespace Selector

variable {ν : Type} [DecidableEq ν] {selector other : Selector}

theorem accepts_reordered (reordered : Selector.Reordered selector other)
    (view : TreeView ν) (maxDepth limit : Nat) (node : ν) :
    Agrees (selector.accepts view maxDepth node) (other.accepts view limit node) := by
  have left := Matching.attempt_keptBy view maxDepth 0 (Nat.le_max_left maxDepth limit)
  have right := Matching.attempt_keptBy view limit 0 (Nat.le_max_right maxDepth limit)
  exact (Matching.anyChain_reordered (Matching.attempt_agreesReordered view 0 _) reordered
    node).of_keeps (Matching.anyChain_keeps left node selector)
      (Matching.anyChain_keeps right node other)

/-- Every subject has a counterpart that asks for no other tags. -/
theorem Reordered.asks (reordered : Selector.Reordered selector other) :
    ∀ chain ∈ selector, ∃ counterpart ∈ other,
      ∀ name, Simple.type name ∈ counterpart.subject → .type name ∈ chain.subject := by
  intro chain member
  obtain ⟨counterpart, isOther, related⟩ :=
    (Selector.reordered_iff.mp reordered).forth chain member
  obtain ⟨subject, -⟩ := Chain.reordered_iff.mp related
  refine ⟨counterpart, isOther, fun name asked => ?_⟩
  obtain ⟨simple, isSimple, same⟩ := (Compound.reordered_iff.mp subject).back _ asked
  rwa [Simple.reordered_type_iff.mp same] at isSimple

theorem Reordered.asked (reordered : Selector.Reordered selector other) :
    ∀ counterpart ∈ other, ∃ chain ∈ selector,
      ∀ name, Simple.type name ∈ chain.subject → .type name ∈ counterpart.subject := by
  intro counterpart member
  obtain ⟨chain, isChain, related⟩ :=
    (Selector.reordered_iff.mp reordered).back counterpart member
  obtain ⟨subject, -⟩ := Chain.reordered_iff.mp related
  refine ⟨chain, isChain, fun name asked => ?_⟩
  obtain ⟨simple, isSimple, same⟩ := (Compound.reordered_iff.mp subject).forth _ asked
  rwa [same.type_eq] at isSimple

/-- On every view, however its answers contradict each other, a selector and a reordered
one accept the same nodes and select the same nodes, each with its own filter and limit,
whenever both give an answer. -/
theorem reordered_agree (reordered : Selector.Reordered selector other)
    (view : TreeView ν) (maxDepth limit : Nat) :
    (∀ node answer answerOther, selector.accepts view maxDepth node = .ok answer →
        other.accepts view limit node = .ok answerOther → answer = answerOther) ∧
      ∀ root found foundOther,
        selector.select view maxDepth (.ofSelector selector) root = .ok found →
        other.select view limit (.ofSelector other) root = .ok foundOther →
        found = foundOther := by
  have agree := accepts_reordered reordered view maxDepth limit
  refine ⟨agree, fun root => select_agrees (fun node => ?_) root⟩
  exact tests_agree (fun _ _ => agree node)
    (fun tag own => Matching.passes_of_anyChain reordered.asks own)
    fun tag own => Matching.passes_of_anyChain reordered.asked own

/-- The selector `c, a b:is(i, :first-child:empty)`. -/
def ordered : Selector :=
  [⟨[.type "c"], [], none⟩,
    ⟨[.type "b", .functional .is [⟨[.type "i"], [], none⟩,
      ⟨[.plain .firstChild, .plain .empty], [], none⟩]],
      [(.descendant, [.type "a"])], none⟩]

/-- The same with everything in another order; its filter has the tags the other way
round. -/
def disordered : Selector :=
  [⟨[.functional .is [⟨[.plain .empty, .plain .firstChild], [], none⟩,
      ⟨[.type "i"], [], none⟩], .type "b"],
      [(.descendant, [.type "a"])], none⟩,
    ⟨[.type "c"], [], none⟩]

theorem reordered_disordered : Selector.Reordered ordered disordered := by
  have nested : Chain.Reordered ⟨[.plain .firstChild, .plain .empty], [], none⟩
      ⟨[.plain .empty, .plain .firstChild], [], none⟩ :=
    Chain.reordered_iff.mpr ⟨.of_perm (.swap _ _ _), .refl _, rfl⟩
  have argument : Selector.Reordered
      [⟨[.type "i"], [], none⟩, ⟨[.plain .firstChild, .plain .empty], [], none⟩]
      [⟨[.plain .empty, .plain .firstChild], [], none⟩, ⟨[.type "i"], [], none⟩] :=
    Selector.reordered_iff.mpr ⟨_, .cons (.refl _) (.cons nested .nil), .swap _ _ _⟩
  have functional : Simple.Reordered
      (.functional .is
        [⟨[.type "i"], [], none⟩, ⟨[.plain .firstChild, .plain .empty], [], none⟩])
      (.functional .is
        [⟨[.plain .empty, .plain .firstChild], [], none⟩, ⟨[.type "i"], [], none⟩]) := by
    rw [Simple.Reordered]
    exact ⟨_, rfl, argument⟩
  have subject := Compound.reordered_iff.mpr
    ⟨_, .cons (Simple.Reordered.refl (.type "b")) (.cons functional .nil), .swap _ _ _⟩
  refine Selector.reordered_iff.mpr
    ⟨disordered.reverse, .cons (.refl _) (.cons ?_ .nil), List.reverse_perm _⟩
  exact Chain.reordered_iff.mpr ⟨subject, .refl _, rfl⟩

/-- Below the second node of the chain with a gap, each node is asked about in turn. -/
theorem collect_gapView {test : Fin 5 → Except MatchError Bool} {keep : Fin 5 → Bool}
    (asked : ∀ node, test node = .ok (keep node)) :
    Matching.gapView.collect test 1 = .ok ([1, 2, 3, 4].filter keep) := by
  have longest : Matching.gapView.longestPath = 5 := rfl
  obtain ⟨second, third, fourth, last⟩ : Matching.gapView.children 1 = .ok [2] ∧
      Matching.gapView.children 2 = .ok [3] ∧ Matching.gapView.children 3 = .ok [4] ∧
      Matching.gapView.children 4 = .ok [] :=
    ⟨rfl, rfl, rfl, rfl⟩
  rw [TreeView.collect, longest]
  refine TreeView.walk_kept (asked 1) second ?_
  refine TreeView.walk_kept (asked 2) third ?_
  refine TreeView.walk_kept (asked 3) fourth ?_
  refine TreeView.walk_kept (asked 4) last ?_
  show Matching.gapView.walk test [] = .ok []
  rw [TreeView.walk]
  rfl

/-- In the chain of nodes with a gap, both select the empty `b` and the `c`. -/
theorem reordered_agree_gap :
    Selector.Reordered ordered disordered ∧
      ordered.select Matching.gapView 3 (.ofSelector ordered) 1 = .ok [1, 4] ∧
      disordered.select Matching.gapView 4 (.ofSelector disordered) 1 = .ok [1, 4] := by
  have selected : ordered.select Matching.gapView 3 (.ofSelector ordered) 1 =
      .ok [1, 4] := by
    have asked : ∀ node, ordered.tests Matching.gapView 3 node =
        .ok (node == 1 || node == 4) := by
      decide
    exact collect_gapView asked
  obtain ⟨found, answered⟩ : ∃ found,
      disordered.select Matching.gapView 4 (.ofSelector disordered) 1 = .ok found := by
    have asked : ∀ node, disordered.tests Matching.gapView 4 node =
        .ok (node == 1 || node == 4) := by
      decide
    exact ⟨_, collect_gapView asked⟩
  obtain rfl :=
    (reordered_agree reordered_disordered Matching.gapView 3 4).2 1 _ _ selected answered
  exact ⟨reordered_disordered, selected, answered⟩

end Selector

end TreeSelectors
