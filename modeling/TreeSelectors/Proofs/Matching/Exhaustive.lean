import Mathlib.Data.Fintype.Basic
import TreeSelectors.Proofs.Matching.Levels
import TreeSelectors.Proofs.Matching.Search
import TreeSelectors.Proofs.Presentation

/-!
# Exhaustive search

`Findable` describes a search that tries every candidate of every combinator.
What matching finds can be found so.  Conversely, matching misses nothing if no
element is above a node that has children but is no element, or if no child
combinator stands to the left of a descendant combinator.  Otherwise it may: a
child combinator that meets a parent without a tag ends the whole search, while an
element farther out may still have a parent element.
-/

namespace TreeSelectors

/-- Whether compounds, given from right to left, have no child combinator to the
left of a descendant combinator. -/
def Chain.ChildrenFirst : List (Combinator × Compound) → Prop
  | [] => True
  | (.descendant, _) :: further => ∀ pair ∈ further, pair.1 ≠ .child
  | _ :: further => Chain.ChildrenFirst further

namespace Matching

variable {ν : Type} [DecidableEq ν]

/-- Whether a node is an element that meets all conditions of a compound, however
many levels it takes to find out. -/
def Meets (view : TreeView ν) (compound : Compound) (node : ν) : Prop :=
  ∃ levels, compoundHolds view (attempt view levels levels) compound node = .ok true

/-- Whether there are choices among the candidates of the combinators, given from
right to left, such that each chosen node meets its compound. -/
inductive Findable (view : TreeView ν) :
    Compound → List (Combinator × Compound) → ν → Prop where
  | leftmost {compound : Compound} {node : ν} :
      Meets view compound node → Findable view compound [] node
  | link {compound next : Compound} {combinator : Combinator}
      {further : List (Combinator × Compound)} {node choice : ν} {choices : List ν} :
      Meets view compound node → candidates view node combinator = .ok choices →
      choice ∈ choices → Findable view next further choice →
      Findable view compound ((combinator, next) :: further) node

theorem Findable.meets {view : TreeView ν} {compound : Compound}
    {left : List (Combinator × Compound)} {node : ν}
    (findable : Findable view compound left node) : Meets view compound node := by
  cases findable with
  | leftmost meets => exact meets
  | link meets => exact meets

variable {view : TreeView ν} {compound : Compound}
  {left : List (Combinator × Compound)} {node : ν} {limit remaining : Nat}

/-- An answer about a compound settles whether it is met. -/
theorem meets_iff_of_answered {answer : Bool}
    (answered : compoundHolds view (attempt view limit remaining) compound node =
      .ok answer) : Meets view compound node ↔ answer = true := by
  constructor
  · intro meets
    obtain ⟨levels, holds⟩ := meets
    have kept (count : Nat) (enough : count ≤ max remaining levels) (stated : Nat) :=
      compoundHolds_keeps (attempt_keptBy view stated 0 enough) view compound node
    exact (kept remaining (Nat.le_max_left _ _) limit).eq
      (kept levels (Nat.le_max_right _ _) levels) answered holds
  · rintro rfl
    exact ⟨remaining, compoundHolds_keeps
      (attempt_keptBy view limit remaining (Nat.le_refl _)) view compound node true
      answered⟩

theorem Meets.of_tested
    (tested : compoundHolds view (attempt view limit remaining) compound node =
      .ok true) : Meets view compound node :=
  (meets_iff_of_answered tested).mpr rfl

/-! ## What is matched can be found -/

omit [DecidableEq ν] in
theorem exists_matched_of_search {attempt : ν → Except MatchError Attempt}
    {combinator : Combinator} {choices : List ν}
    (answered : search attempt combinator choices = .ok .matched) :
    ∃ choice ∈ choices, attempt choice = .ok .matched := by
  rcases search_cases answered with ⟨ended, -⟩ |
    ⟨front, choice, back, result, rfl, -, tried, settles⟩
  · cases combinator <;> cases ended
  · have matched : result = .matched := by
      cases result <;> cases combinator <;> cases settles
      all_goals rfl
    exact ⟨choice, List.mem_append_right front List.mem_cons_self, matched ▸ tried⟩

private theorem findable_of_matched
    (answered : attempt view limit remaining compound left node none = .ok .matched) :
    Findable view compound left node := by
  induction remaining generalizing compound left node with
  | zero => exact absurd answered attempt_zero_ne_ok
  | succ remaining induction =>
      cases attempted_of_attempt answered with
      | leftmost tested => exact .leftmost (.of_tested tested)
      | searched tested known searched =>
          obtain ⟨choice, member, matched⟩ := exists_matched_of_search searched
          exact .link (.of_tested tested) known member (induction matched)

/-! ## What can be found is matched -/

/-- An outcome, as far as it speaks of the level of its node. -/
def Attempt.onLevel : Attempt → Attempt
  | .hopeless => .resumeAncestor
  | outcome => outcome

@[simp] theorem Attempt.onLevel_eq_matched_iff {outcome : Attempt} :
    outcome.onLevel = .matched ↔ outcome = .matched := by
  cases outcome <;> simp [Attempt.onLevel]

section

variable {forest : Forest ν}

theorem Attempt.Sound.onLevel {matching : ν → Prop} {node : ν} {outcome : Attempt}
    (sound : outcome.Sound forest matching node) :
    outcome.onLevel.Sound forest matching node := by
  cases outcome with
  | hopeless => exact fun other level => sound other level.outward
  | matched | resumeAnywhere | resumeAncestor => exact sound

/-- If a match anywhere on a level is one at the node itself, then it is enough that
an outcome says whether the node matches. -/
theorem Attempt.Sound.onLevel_of_matched_iff {matching : ν → Prop} {node : ν}
    {outcome : Attempt} (matched : outcome = .matched ↔ matching node)
    (same : ∀ other, forest.Level node other → matching other → matching node) :
    outcome.onLevel.Sound forest matching node := by
  cases outcome with
  | matched => exact matched.mp rfl
  | resumeAnywhere => exact fun holds => by cases matched.mpr holds
  | resumeAncestor | hopeless =>
      intro other level holds
      cases matched.mpr (same other level holds)

/-- What is sound for the compounds farther left is sound for what can be found from
a node that meets its own compound. -/
theorem Attempt.Sound.findable (tells : view.Tells forest) {next : Compound}
    {combinator : Combinator} {further : List (Combinator × Compound)}
    {choices : List ν} {outcome : Attempt} (meets : Meets view compound node)
    (known : candidates view node combinator = .ok choices)
    (leads : outcome.Sound forest
      (Leads forest (Findable view next further) combinator) node) :
    outcome.Sound forest (Findable view compound ((combinator, next) :: further))
      node := by
  refine leads.mono (fun other found => ?_) fun reaches => ?_
  · cases found with
    | @link _ _ _ _ _ choice others _ answered member found =>
        obtain ⟨element, relates⟩ := (mem_candidates_iff tells answered).mp member
        exact ⟨choice, element, relates, found⟩
  · obtain ⟨choice, element, relates, found⟩ := reaches
    exact .link meets known ((mem_candidates_iff tells known).mpr ⟨element, relates⟩)
      found

private theorem not_findable_of_failed
    (tested : compoundHolds view (attempt view limit remaining) compound node =
      .ok false) : ¬ Findable view compound left node := by
  intro found
  exact Bool.false_ne_true ((meets_iff_of_answered tested).mp found.meets)

variable (tells : view.Tells forest) (consistent : forest.Consistent)
include tells consistent

/-- Attempts are sound if child combinators are met only where no element is above
the nodes that are none. -/
theorem attempt_sound {outcome : Attempt}
    (top : ∀ pair ∈ left, pair.1 = .child → forest.PlainOnTop)
    (answered : attempt view limit remaining compound left node none = .ok outcome) :
    outcome.Sound forest (Findable view compound left) node := by
  induction remaining generalizing compound left node outcome with
  | zero => exact absurd answered attempt_zero_ne_ok
  | succ remaining induction =>
      cases attempted_of_attempt answered with
      | refused tested => exact not_findable_of_failed tested
      | leftmost tested => exact .leftmost (.of_tested tested)
      | @searched combinator next further _ choices _ tested known searched =>
          have meets : Meets view compound node := .of_tested tested
          obtain ⟨topHere, topFurther⟩ := List.forall_mem_cons.mp top
          have rest := fun choice result tried =>
            @induction next further choice result topFurther tried
          have leads := search_sound tells consistent rest topHere known searched
          exact leads.findable tells meets known

/-! ### Outcomes on one level

Where no ancestor is chosen any more, it is enough that an outcome rules out the
nodes on the level of its own one. -/

omit [DecidableEq ν] tells consistent in
/-- A search among siblings passes on what its attempts say about a level. -/
theorem search_onLevel {attempt : ν → Except MatchError Attempt}
    {combinator : Combinator} {choices : List ν} {outcome : Attempt}
    (siblings : exhausted combinator = .resumeAncestor)
    (answered : search attempt combinator choices = .ok outcome) :
    search (fun choice => return (← attempt choice).onLevel) combinator choices =
      .ok outcome.onLevel := by
  induction choices with
  | nil =>
      simp only [search, pure_eq_ok] at answered ⊢
      rw [← answered, siblings]
      rfl
  | cons choice rest induction =>
      simp only [search, bind_eq_ok] at answered
      obtain ⟨result, tried, answered⟩ := answered
      have same : settled? result.onLevel combinator =
          (settled? result combinator).map Attempt.onLevel := by
        cases combinator <;> cases siblings <;> cases result <;> rfl
      simp only [search, bind_eq_ok, pure_eq_ok]
      refine ⟨result.onLevel, ⟨result, tried, rfl⟩, ?_⟩
      rw [same]
      cases settles : settled? result combinator with
      | some settled =>
          simp only [settles, pure_eq_ok] at answered
          simp [answered]
      | none =>
          simp only [settles] at answered
          exact induction answered

section

variable {matching : ν → Prop} {attempt : ν → Except MatchError Attempt}
  (sound : ∀ choice result, attempt choice = .ok result →
    result.onLevel.Sound forest matching choice)
include sound

private theorem search_siblings_onLevel {combinator : Combinator} {choices : List ν}
    {outcome : Attempt} (siblings : exhausted combinator = .resumeAncestor)
    (known : candidates view node combinator = .ok choices)
    (answered : search attempt combinator choices = .ok outcome) :
    outcome.onLevel.Sound forest (Leads forest matching combinator) node := by
  have rest : ∀ choice result,
      (do return (← attempt choice).onLevel : Except MatchError Attempt) = .ok result →
        result.Sound forest matching choice := by
    intro choice result tried
    simp only [bind_eq_ok, pure_eq_ok] at tried
    obtain ⟨first, tried, rfl⟩ := tried
    exact sound choice first tried
  have noChild : combinator = .child → forest.PlainOnTop := by
    rintro rfl
    cases siblings
  exact search_sound tells consistent rest noChild known
    (search_onLevel siblings answered)

private theorem search_child_onLevel {choices : List ν} {outcome : Attempt}
    (known : candidates view node .child = .ok choices)
    (answered : search attempt .child choices = .ok outcome) :
    outcome.onLevel.Sound forest (Leads forest matching .child) node := by
  have isChoice {left : ν} := @mem_candidates_iff _ _ _ _ tells _ _ _ known left
  have matched : outcome = .matched ↔ Leads forest matching .child node := by
    rcases search_cases answered with ⟨rfl, passed⟩ |
      ⟨front, choice, back, result, rfl, passed, tried, settles⟩
    · refine ⟨nofun, fun leads => ?_⟩
      obtain ⟨left, element, link, -⟩ := leads
      obtain ⟨result, -, unsettled⟩ := passed left (isChoice.mpr ⟨element, link⟩)
      cases result <;> cases unsettled
    · obtain ⟨element, link⟩ :=
        isChoice.mp (List.mem_append_right front List.mem_cons_self)
      have verdict := (sound choice result tried).matched_iff
      have only : Leads forest matching .child node ↔ matching choice := by
        refine ⟨fun leads => ?_, fun holds => ⟨choice, element, link, holds⟩⟩
        obtain ⟨left, -, otherLink, holds⟩ := leads
        cases Option.some.inj (Eq.trans (Eq.symm otherLink) link)
        exact holds
      rw [only, ← verdict]
      cases result <;> cases settles <;> simp [Attempt.onLevel]
  exact .onLevel_of_matched_iff matched fun other level leads => by
    obtain ⟨left, element, link, holds⟩ := leads
    exact ⟨left, element, (level.parent_eq consistent).symm.trans link, holds⟩

end

/-- Attempts are sound on the level of their node if no child combinator stands to
the left of a descendant combinator. -/
theorem attempt_onLevel_sound {outcome : Attempt} (first : Chain.ChildrenFirst left)
    (answered : attempt view limit remaining compound left node none = .ok outcome) :
    outcome.onLevel.Sound forest (Findable view compound left) node := by
  induction remaining generalizing compound left node outcome with
  | zero => exact absurd answered attempt_zero_ne_ok
  | succ remaining induction =>
      cases attempted_of_attempt answered with
      | refused tested => exact not_findable_of_failed tested
      | leftmost tested => exact .leftmost (.of_tested tested)
      | @searched combinator next further _ choices _ tested known searched =>
          have meets : Meets view compound node := .of_tested tested
          refine Attempt.Sound.findable tells meets known ?_
          have rest (more : Chain.ChildrenFirst further) :=
            fun choice result tried =>
              @induction next further choice result more tried
          cases combinator with
          | descendant =>
              -- No child combinator is left, so attempts farther left are sound in
              -- the stronger sense, with nothing known about the forest.
              have top : ∀ pair ∈ further, pair.1 = .child → forest.PlainOnTop :=
                fun pair member same => (first pair member same).elim
              have farther := fun choice result tried =>
                @attempt_sound _ _ view next further choice limit remaining forest
                  tells consistent result top tried
              exact (search_descendant_sound tells consistent farther known
                searched).onLevel
          | child =>
              exact search_child_onLevel tells consistent (rest first) known searched
          | nextSibling | laterSibling =>
              exact search_siblings_onLevel tells consistent (rest first) rfl known
                searched

end

/-! ## Both searches -/

theorem accepts_single_eq_ok_iff {maxDepth : Nat} {chain : Chain} {answer : Bool} :
    Selector.accepts view maxDepth [chain] node = .ok answer ↔
      ∃ outcome, attempt view maxDepth maxDepth chain.subject chain.left node none =
        .ok outcome ∧ answer = decide (outcome = .matched) := by
  simp only [Selector.accepts, anyChain, bind_eq_ok]
  refine exists_congr fun outcome => and_congr_right fun _ => ?_
  by_cases matched : outcome = .matched
  · simp only [matched, if_true, pure_eq_ok, decide_true]
    exact eq_comm
  · simp only [matched, if_false, pure_eq_ok, decide_false]
    exact eq_comm

/-- On a finite forest, a chain that may be matched deep enough is either accepted or
refused.  If it is accepted, then choices among the candidates show why; and if there
are such choices, it is accepted, unless an element is above a node that has children
but is no element, and a child combinator stands to the left of a descendant
combinator. -/
theorem accepts_iff_findable {forest : Forest ν} {nodes : Finset ν}
    (presents : view.Presents forest nodes) (inside : node ∈ nodes) (chain : Chain)
    {maxDepth : Nat} (fits : chain.depth ≤ maxDepth) :
    ∃ answer, Selector.accepts view maxDepth [chain] node = .ok answer ∧
      (answer = true → Findable view chain.subject chain.left node) ∧
      (forest.PlainOnTop ∨ Chain.ChildrenFirst chain.left →
        Findable view chain.subject chain.left node → answer = true) := by
  have deep : Selector.depth [chain] ≤ maxDepth := by
    simpa [Selector.depth] using fits
  obtain ⟨answer, answered⟩ := presents.exists_accepts inside deep
  obtain ⟨outcome, tried, rfl⟩ := accepts_single_eq_ok_iff.mp answered
  refine ⟨_, answered, fun accepted => ?_, fun condition found => ?_⟩
  · rw [decide_eq_true_iff] at accepted
    exact findable_of_matched (accepted ▸ tried)
  · rw [decide_eq_true_iff]
    rcases condition with top | first
    · exact (attempt_sound presents.tells presents.consistent (fun _ _ _ => top)
        tried).matched_iff.mpr found
    · exact Attempt.onLevel_eq_matched_iff.mp ((attempt_onLevel_sound presents.tells
        presents.consistent first tried).matched_iff.mpr found)

/-! ### A node without a tag between elements -/

/-- An `a`, a `b`, a node without a tag, a `b` and a `c`, each below the one
before. -/
def gapForest : Forest (Fin 5) where
  tag
    | 0 => some "a"
    | 1 | 3 => some "b"
    | 2 => none
    | 4 => some "c"
  attributeValue _ _ := none
  text _ := none
  parent
    | 0 => none
    | 1 => some 0
    | 2 => some 1
    | 3 => some 2
    | 4 => some 3
  children
    | 0 => [1]
    | 1 => [2]
    | 2 => [3]
    | 3 => [4]
    | 4 => []

def gapView : TreeView (Fin 5) :=
  TreeView.ofQueries (gapForest.queries (fun _ => []) 5) fun node => toString node.val

theorem presents_gapView : gapView.Presents gapForest Finset.univ := by
  apply Forest.presents
  case consistent => exact ⟨by decide, by decide⟩
  case links => exact fun _ => ⟨Finset.mem_univ _, Finset.mem_univ _⟩
  case values => exact fun _ _ => rfl
  case enough => decide
  case acyclic =>
    have upwards : ∀ child parent : Fin 5,
        gapForest.parent child = some parent → parent < child := by
      decide
    exact Subrelation.wf (fun link => upwards _ _ link) wellFounded_lt

private theorem candidates_gapView :
    candidates gapView 4 .descendant = .ok [3, 1, 0] ∧
      candidates gapView 1 .child = .ok [0] := by
  decide

/-- The chain `b c` at the `c`: no child combinator stands to the left of its
descendant combinator. -/
theorem accepts_iff_findable_gap :
    gapView.Presents gapForest Finset.univ ∧
      (4 : Fin 5) ∈ (Finset.univ : Finset (Fin 5)) ∧
      Chain.depth ⟨[.type "c"], [(.descendant, [.type "b"])], none⟩ ≤ 2 ∧
      Chain.ChildrenFirst [(.descendant, [.type "b"])] ∧
      Findable gapView [.type "c"] [(.descendant, [.type "b"])] 4 ∧
      Selector.accepts gapView 2 [⟨[.type "c"], [(.descendant, [.type "b"])], none⟩] 4 =
        .ok true := by
  have inside : (4 : Fin 5) ∈ (Finset.univ : Finset (Fin 5)) := Finset.mem_univ 4
  have fits : Chain.depth ⟨[.type "c"], [(.descendant, [.type "b"])], none⟩ ≤ 2 := by
    decide
  have first : Chain.ChildrenFirst [(.descendant, [.type "b"])] := by
    simp [Chain.ChildrenFirst]
  have found : Findable gapView [.type "c"] [(.descendant, [.type "b"])] 4 :=
    .link ⟨0, by decide⟩ candidates_gapView.1 List.mem_cons_self
      (.leftmost ⟨0, by decide⟩)
  obtain ⟨answer, answered, -, complete⟩ :=
    accepts_iff_findable presents_gapView inside
      ⟨[.type "c"], [(.descendant, [.type "b"])], none⟩ fits
  refine ⟨presents_gapView, inside, fits, first, found, ?_⟩
  rw [answered, complete (Or.inr first) found]

/-- The chain `a > b c` at the `c`: the upper `b` is a child of the `a`, but the search
ends at the lower `b`, whose parent has no tag. -/
theorem not_accepts_of_findable :
    gapView.Presents gapForest Finset.univ ∧
      Findable gapView [.type "c"] [(.descendant, [.type "b"]), (.child, [.type "a"])]
        4 ∧
      ∀ maxDepth, 3 ≤ maxDepth →
        Selector.accepts gapView maxDepth
          [⟨[.type "c"], [(.descendant, [.type "b"]), (.child, [.type "a"])], none⟩] 4 =
          .ok false := by
  refine ⟨presents_gapView, ?_, fun maxDepth enough => ?_⟩
  · have upper : (1 : Fin 5) ∈ [3, 1, 0] := by decide
    have top : Findable gapView [.type "a"] [] 0 := .leftmost ⟨0, by decide⟩
    exact .link ⟨0, by decide⟩ candidates_gapView.1 upper
      (.link ⟨0, by decide⟩ candidates_gapView.2 List.mem_cons_self top)
  · exact accepts_keeps gapView enough _ _ _ (by decide)

end Matching

end TreeSelectors
