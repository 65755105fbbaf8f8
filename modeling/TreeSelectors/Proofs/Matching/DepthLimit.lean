import TreeSelectors.Proofs.Matching.Levels
import TreeSelectors.Proofs.Selection

/-!
# The limit on the depth of matching

Only chains and the arguments in them lead matching deeper.  Whatever a view answers,
and whether or not it answers at all, a limit of the depth of the selector is never
exceeded; what is answered under a limit is answered alike under every larger one.
-/

namespace TreeSelectors

/-! ## The depth as a maximum -/

/-- The compounds of a chain from right to left. -/
def Chain.compounds (chain : Chain) : List Compound :=
  chain.subject :: chain.left.map Prod.snd

theorem Compound.depth_le_iff {compound : Compound} {limit : Nat} :
    Compound.depth compound ≤ limit ↔
      ∀ function argument, .functional function argument ∈ compound →
        Selector.depth argument ≤ limit := by
  induction compound with
  | nil => simp [Compound.depth]
  | cons simple rest induction =>
      rw [Compound.depth, Nat.max_le, induction]
      cases simple with
      | functional function argument =>
          rw [Simple.depth]
          constructor
          · rintro ⟨first, others⟩ other nested member
            rcases List.mem_cons.mp member with same | member
            · cases same
              exact first
            · exact others other nested member
          · intro all
            exact ⟨all function argument List.mem_cons_self,
              fun other nested member => all other nested (List.mem_cons_of_mem _ member)⟩
      | _ => simp [Simple.depth]

/-- Each compound on the way left adds a level. -/
theorem Chain.depthLeft_le_iff {left : List (Combinator × Compound)} {limit : Nat} :
    Chain.depthLeft left ≤ limit ↔
      ∀ (place : Nat) (compound : Compound),
        (left.map Prod.snd)[place]? = some compound →
          place + 1 + Compound.depth compound ≤ limit := by
  induction left generalizing limit with
  | nil => simp [Chain.depthLeft]
  | cons first rest induction =>
      obtain ⟨combinator, compound⟩ := first
      rw [Chain.depthLeft, List.map_cons]
      constructor
      · intro fits place other found
        cases place with
        | zero =>
            obtain rfl : compound = other := Option.some.inj found
            omega
        | succ place =>
            have inner : Chain.depthLeft rest ≤ limit - 1 := by omega
            have further := induction.mp inner place other found
            omega
      · intro all
        have own : 0 + 1 + Compound.depth compound ≤ limit := all 0 compound rfl
        have inner : Chain.depthLeft rest ≤ limit - 1 := by
          refine induction.mpr fun place other found => ?_
          have further := all (place + 1) other found
          omega
        omega

theorem Chain.depth_eq_depthLeft (chain : Chain) :
    chain.depth = Chain.depthLeft ((.descendant, chain.subject) :: chain.left) := by
  cases chain
  rw [Chain.depth, Chain.depthLeft]

/-- The depth of a selector is the largest number that a compound leads to: its place in
its chain, counted from one at the subject, and the depth of an argument in it. -/
theorem Selector.depth_le_iff {selector : Selector} {limit : Nat} :
    Selector.depth selector ≤ limit ↔
      ∀ chain ∈ selector, ∀ (place : Nat) (compound : Compound),
        chain.compounds[place]? = some compound →
          place + 1 ≤ limit ∧ ∀ function argument,
            .functional function argument ∈ compound →
              place + 1 + Selector.depth argument ≤ limit := by
  have chains : Selector.depth selector ≤ limit ↔
      ∀ chain ∈ selector, chain.depth ≤ limit := by
    induction selector with
    | nil => simp [Selector.depth]
    | cons chain rest induction =>
        rw [Selector.depth, Nat.max_le, induction, List.forall_mem_cons]
  rw [chains]
  refine forall₂_congr fun chain _ => ?_
  have compounds : chain.depth ≤ limit ↔ ∀ (place : Nat) (compound : Compound),
      chain.compounds[place]? = some compound →
        place + 1 + Compound.depth compound ≤ limit := by
    -- The subject is counted like a compound on the left of another one.
    rw [chain.depth_eq_depthLeft, Chain.depthLeft_le_iff]
    rfl
  rw [compounds]
  refine forall₃_congr fun place compound _ => ?_
  constructor
  · intro fits
    refine ⟨by omega, fun function argument member => ?_⟩
    have inner := Compound.depth_le_iff.mp (Nat.le_refl _) function argument member
    omega
  · rintro ⟨fits, arguments⟩
    have inner : Compound.depth compound ≤ limit - (place + 1) := by
      refine Compound.depth_le_iff.mpr fun function argument member => ?_
      have further := arguments function argument member
      omega
    omega

/-! ## Failures that are not of the limit -/

/-- Matching went deeper than a limit. -/
def MatchError.IsDepth (failure : MatchError) : Prop :=
  ∃ limit, failure = .depthExceeded limit

private theorem gives_liftM {α : Type} (result : Except ViewError α) :
    Gives MatchError.IsDepth (fun _ => True) (liftM result : Except MatchError α) := by
  cases result with
  | error failure =>
      rintro ⟨limit, same⟩
      cases same
  | ok answer => trivial

private theorem gives_endless {α : Type} :
    Gives MatchError.IsDepth (fun _ : α => True) (throw .endless) := by
  rintro ⟨limit, same⟩
  cases same

namespace TreeView

variable {ν : Type} (view : TreeView ν)

private theorem isElement_gives (node : ν) :
    Gives MatchError.IsDepth (fun _ => True) (view.isElement node) :=
  .bind (gives_liftM _) fun _ _ => .pure trivial

private theorem elementAncestorsWithin_gives (steps : Nat) (node : ν) :
    Gives MatchError.IsDepth (fun _ => True) (view.elementAncestorsWithin steps node) := by
  induction steps generalizing node with
  | zero => exact gives_endless
  | succ steps induction =>
      refine .bind (gives_liftM _) fun parent _ => ?_
      cases parent with
      | none => exact .pure trivial
      | some ancestor =>
          refine .bind (view.isElement_gives ancestor) fun keep _ => ?_
          exact .bind (induction ancestor) fun _ _ => .pure trivial

private theorem isBelowWithin_gives [DecidableEq ν] (ancestor : ν) (steps : Nat)
    (node : ν) :
    Gives MatchError.IsDepth (fun _ => True) (view.isBelowWithin ancestor steps node) := by
  induction steps generalizing node with
  | zero => exact gives_endless
  | succ steps induction =>
      refine .bind (gives_liftM _) fun parent _ => ?_
      cases parent with
      | none => exact .pure trivial
      | some parent =>
          dsimp only
          split
          · exact .pure trivial
          · exact induction parent

theorem walk_gives (stack : List (Nat × ν)) :
    Gives MatchError.IsDepth (fun _ => True) (view.walk view.isElement stack) := by
  fun_induction TreeView.walk view view.isElement stack with
  | case1 => exact .pure trivial
  | case2 => exact gives_endless
  | case3 levels node rest induction =>
      refine .bind (view.isElement_gives node) fun keep _ => ?_
      refine .bind (gives_liftM _) fun children _ => ?_
      exact .bind (induction children) fun _ _ => .pure trivial

/-- No question fails because of a limit, whatever the view answers. -/
theorem safe_everywhere [DecidableEq ν] : view.Safe MatchError.IsDepth fun _ => True where
  tagName _ := gives_liftM _
  text _ := gives_liftM _
  attributeValue _ _ := gives_liftM _
  id _ := gives_liftM _
  hasClass _ _ := gives_liftM _
  parent _ := (gives_liftM _).mono fun _ _ _ _ => trivial
  children _ := (gives_liftM _).mono fun _ _ _ _ => trivial
  previousSiblings _ := (gives_liftM _).mono fun _ _ _ _ => trivial
  nextSiblings _ := (gives_liftM _).mono fun _ _ _ _ => trivial
  elementAncestors _ :=
    (view.elementAncestorsWithin_gives _ _).mono fun _ _ _ _ => trivial
  descendantElements _ :=
    (Gives.bind (gives_liftM _) fun _ _ => view.walk_gives _).mono fun _ _ _ _ => trivial
  isBelow ancestor _ _ := view.isBelowWithin_gives ancestor _ _

end TreeView

/-- With a limit that is at least the depth of the selector, matching never fails because
of the limit, whatever the view answers; an answer under one limit is the answer under
every larger one; and about the nodes of a loaded tree there is an answer. -/
theorem Selector.accepts_of_depth_le (selector : Selector) :
    (∀ limit, Selector.depth selector ≤ limit ↔
      ∀ chain ∈ selector, ∀ (place : Nat) (compound : Compound),
        chain.compounds[place]? = some compound →
          place + 1 ≤ limit ∧ ∀ function argument,
            .functional function argument ∈ compound →
              place + 1 + Selector.depth argument ≤ limit) ∧
      (∀ {ν : Type} [DecidableEq ν] (view : TreeView ν) (node : ν) (maxDepth : Nat),
        Selector.depth selector ≤ maxDepth →
          ∀ limit, selector.accepts view maxDepth node ≠ .error (.depthExceeded limit)) ∧
      (∀ {ν : Type} [DecidableEq ν] (view : TreeView ν) (node : ν) (maxDepth more : Nat)
        (answer : Bool), maxDepth ≤ more →
          selector.accepts view maxDepth node = .ok answer →
            selector.accepts view more node = .ok answer) ∧
      (∀ (text : String) (tree : Tree), Tree.load text = .ok tree →
        ∀ node < tree.size, ∀ maxDepth, Selector.depth selector ≤ maxDepth →
          ∃ answer, selector.accepts tree.view maxDepth node = .ok answer) := by
  refine ⟨fun _ => depth_le_iff, ?limited, ?kept, ?answered⟩
  case limited =>
    intro ν _ view node maxDepth fits limit failed
    have gives : Gives MatchError.IsDepth (fun _ => True)
        (selector.accepts view maxDepth node) :=
      Matching.accepts_gives view.safe_everywhere fits trivial
    rw [failed] at gives
    exact gives ⟨limit, rfl⟩
  case kept =>
    intro ν _ view node maxDepth more answer fits
    exact Matching.accepts_keeps view fits selector node answer
  case answered =>
    intro text tree loaded node inside maxDepth fits
    have presents := (Tree.rooted_of_load loaded).linked.presents
    exact presents.exists_accepts (Finset.mem_range.mpr inside) fits

/-- The selector `p > :is(b:not(p))`. -/
def nestedSelector : Selector :=
  [⟨[.functional .is
      [⟨[.type "b", .functional .not [⟨[.type "p"], [], none⟩]], [], none⟩]],
    [(.child, [.type "p"])], none⟩]

/-- The depth of the selector suffices, and one level less does not. -/
theorem Selector.accepts_of_depth_le_nested :
    Selector.depth nestedSelector = 3 ∧
      Tree.load Tree.paragraphText = .ok Tree.paragraph ∧ 2 < Tree.paragraph.size ∧
      (∀ limit, nestedSelector.accepts Tree.paragraph.view 3 2 ≠
        .error (.depthExceeded limit)) ∧
      (∃ answer, nestedSelector.accepts Tree.paragraph.view 3 2 = .ok answer) ∧
      nestedSelector.accepts Tree.paragraph.view 256 2 = .ok true ∧
      nestedSelector.accepts Tree.paragraph.view 2 2 = .error (.depthExceeded 2) := by
  have depth : Selector.depth nestedSelector = 3 := by decide +kernel
  have inside : 2 < Tree.paragraph.size := by decide
  have answered : nestedSelector.accepts Tree.paragraph.view 3 2 = .ok true := by
    decide +kernel
  obtain ⟨-, limited, kept, exists_answer⟩ := accepts_of_depth_le nestedSelector
  exact ⟨depth, Tree.load_paragraph, inside,
    limited Tree.paragraph.view 2 3 (Nat.le_of_eq depth),
    exists_answer _ _ Tree.load_paragraph 2 inside 3 (Nat.le_of_eq depth),
    kept Tree.paragraph.view 2 3 256 true (by decide) answered, by decide +kernel⟩

end TreeSelectors
