import TreeSelectors.Matching
import TreeSelectors.Proofs.Answer

/-!
# Answers do not depend on the limit

An attempt that may go more levels deeper gives every answer that one with fewer
levels gives.  So whatever two limits allow to be answered has the same answer
under both.
-/

namespace TreeSelectors

/-- Whenever the first result is an answer, it is that of the second one,
too. -/
def Keeps {ε α : Type} (first second : Except ε α) : Prop :=
  ∀ answer, first = .ok answer → second = .ok answer

namespace Keeps

variable {ε α β : Type}

theorem refl (result : Except ε α) : Keeps result result :=
  fun _ answered => answered

theorem bind {first second : Except ε α} {next further : α → Except ε β}
    (keeps : Keeps first second) (step : ∀ value, Keeps (next value) (further value)) :
    Keeps (first >>= next) (second >>= further) := by
  intro answer answered
  rw [bind_eq_ok] at answered ⊢
  obtain ⟨value, known, answered⟩ := answered
  exact ⟨value, keeps value known, step value answer answered⟩

/-- Two results that a third one keeps do not differ. -/
theorem eq {first second third : Except ε α} (left : Keeps first third)
    (right : Keeps second third) {answer other : α} (answered : first = .ok answer)
    (answeredOther : second = .ok other) : answer = other := by
  have same := left answer answered
  rw [right other answeredOther] at same
  exact (Except.ok.inj same).symm

end Keeps

namespace Matching

variable {ν : Type}

/-- Every answer of the first matcher is one of the second. -/
def KeptBy (fewer more : ChainMatcher ν) : Prop :=
  ∀ compound left node scope,
    Keeps (fewer compound left node scope) (more compound left node scope)

section

variable {fewer more : ChainMatcher ν} (kept : KeptBy fewer more)

include kept

theorem anyChain_keeps (node : ν) (selector : Selector) :
    Keeps (anyChain fewer node selector) (anyChain more node selector) := by
  induction selector with
  | nil => exact .refl _
  | cons chain rest induction =>
      refine .bind (kept _ _ _ _) fun outcome => ?_
      split
      · exact .refl _
      · exact induction

private theorem anyCandidate_keeps (chain : Chain) (scope : Scope ν) (choices : List ν) :
    Keeps (anyCandidate fewer chain scope choices)
      (anyCandidate more chain scope choices) := by
  induction choices with
  | nil => exact .refl _
  | cons choice rest induction =>
      refine .bind (kept _ _ _ _) fun outcome => ?_
      split
      · exact .refl _
      · exact induction

private theorem has_keeps (view : TreeView ν) (node : ν) (selector : Selector) :
    Keeps (has view fewer node selector) (has view more node selector) := by
  induction selector with
  | nil => exact .refl _
  | cons chain rest induction =>
      refine .bind (.refl _) fun choices => ?_
      refine .bind (anyCandidate_keeps kept _ _ _) fun found => ?_
      split
      · exact .refl _
      · exact induction

variable [DecidableEq ν]

private theorem simpleHolds_keeps (view : TreeView ν) (node : ν) (tag : String)
    (simple : Simple) :
    Keeps (simpleHolds view fewer node tag simple)
      (simpleHolds view more node tag simple) := by
  cases simple with
  | functional function argument =>
      cases function with
      | is => exact anyChain_keeps kept node argument
      | not => exact .bind (anyChain_keeps kept node argument) fun _ => .refl _
      | has => exact has_keeps kept view node argument
  | _ => exact .refl _

private theorem allHold_keeps (view : TreeView ν) (node : ν) (tag : String)
    (compound : Compound) :
    Keeps (allHold view fewer node tag compound)
      (allHold view more node tag compound) := by
  induction compound with
  | nil => exact .refl _
  | cons simple rest induction =>
      refine .bind (simpleHolds_keeps kept view node tag simple) fun holds => ?_
      split
      · exact induction
      · exact .refl _

theorem compoundHolds_keeps (view : TreeView ν) (compound : Compound) (node : ν) :
    Keeps (compoundHolds view fewer compound node)
      (compoundHolds view more compound node) := by
  refine .bind (.refl _) fun tag => ?_
  split
  · exact .refl _
  · exact allHold_keeps kept view node _ compound

end

private theorem search_keeps {fewer more : ν → Except MatchError Attempt}
    (kept : ∀ choice, Keeps (fewer choice) (more choice)) (combinator : Combinator)
    (choices : List ν) :
    Keeps (search fewer combinator choices) (search more combinator choices) := by
  induction choices with
  | nil => exact .refl _
  | cons choice rest induction =>
      refine .bind (kept choice) fun result => ?_
      split
      · exact .refl _
      · exact induction

variable [DecidableEq ν]

/-- More levels keep all answers; the limit only stands in errors. -/
theorem attempt_keptBy (view : TreeView ν) (limit other : Nat)
    {remaining further : Nat} (more : remaining ≤ further) :
    KeptBy (attempt view limit remaining) (attempt view other further) := by
  induction remaining generalizing further with
  | zero =>
      intro compound left node scope answer answered
      simp [attempt] at answered
  | succ remaining induction =>
      cases further with
      | zero => cases more
      | succ further =>
          have inner := induction (Nat.le_of_succ_le_succ more)
          intro compound left node scope
          simp only [attempt]
          refine .bind (compoundHolds_keeps inner view compound node) fun meets => ?_
          split
          · split
            · exact .refl _
            · exact .refl _
            · refine .bind (.refl _) fun choices => ?_
              exact search_keeps (fun _ => inner _ _ _ _) _ choices
          · exact .refl _

/-- Different limits never lead to different answers. -/
theorem anyChain_answers_eq {view : TreeView ν} {limit other remaining further : Nat}
    {node : ν} {selector : Selector} {first second : Bool}
    (answered : anyChain (attempt view limit remaining) node selector = .ok first)
    (answeredOther : anyChain (attempt view other further) node selector = .ok second) :
    first = second := by
  have left := attempt_keptBy view limit limit (Nat.le_max_left remaining further)
  have right := attempt_keptBy view other limit (Nat.le_max_right remaining further)
  exact (anyChain_keeps left node selector).eq (anyChain_keeps right node selector)
    answered answeredOther

theorem accepts_keeps (view : TreeView ν) {maxDepth other : Nat}
    (more : maxDepth ≤ other) (selector : Selector) (node : ν) :
    Keeps (selector.accepts view maxDepth node) (selector.accepts view other node) :=
  anyChain_keeps (attempt_keptBy view maxDepth other more) node selector

end Matching

end TreeSelectors
