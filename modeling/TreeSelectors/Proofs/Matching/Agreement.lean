import TreeSelectors.Proofs.Matching.Levels

/-!
# Answers that agree

Two computations agree if they do not give different answers, although either of them
may fail.  Matching asks whether some chain, some candidate or every condition passes,
and stops at the first one that decides.  So it may ask in another order, and ask other
things, as long as whatever decides one question has something in the other one that
agrees with it.
-/

namespace TreeSelectors

/-- Whenever both results are answers, they are the same answer. -/
def Agrees {ε α : Type} (first second : Except ε α) : Prop :=
  ∀ answer other, first = .ok answer → second = .ok other → answer = other

namespace Agrees

variable {ε α β γ δ : Type}

theorem refl (result : Except ε α) : Agrees result result :=
  fun _ _ answered again => Except.ok.inj (answered.symm.trans again)

theorem bind {first second : Except ε α} {next further : α → Except ε β}
    (agrees : Agrees first second) (step : ∀ value, Agrees (next value) (further value)) :
    Agrees (first >>= next) (second >>= further) := by
  intro answer other answered answeredOther
  rw [bind_eq_ok] at answered answeredOther
  obtain ⟨value, known, answered⟩ := answered
  obtain ⟨_, again, answeredOther⟩ := answeredOther
  obtain rfl := agrees _ _ known again
  exact step value _ _ answered answeredOther

/-- Results that are kept by agreeing ones agree. -/
theorem of_keeps {first second kept other : Except ε α} (agrees : Agrees kept other)
    (left : Keeps first kept) (right : Keeps second other) : Agrees first second :=
  fun _ _ answered answeredOther =>
    agrees _ _ (left _ answered) (right _ answeredOther)

end Agrees

/-! ## Questions about some or all items -/

section

variable {ε α β : Type} {test : α → Except ε Bool} {second : β → Except ε Bool}
  {items : List α} {others : List β}

theorem exists_of_anyM (answered : items.anyM test = .ok true) :
    ∃ item ∈ items, test item = .ok true := by
  induction items with
  | nil => cases answered
  | cons item rest induction =>
      rw [List.anyM_cons, bind_eq_ok] at answered
      obtain ⟨passes, tested, answered⟩ := answered
      cases passes with
      | true => exact ⟨item, List.mem_cons_self, tested⟩
      | false =>
          obtain ⟨other, member, passes⟩ := induction answered
          exact ⟨other, List.mem_cons_of_mem _ member, passes⟩

theorem forall_of_anyM (answered : items.anyM test = .ok false) :
    ∀ item ∈ items, test item = .ok false := by
  induction items with
  | nil => simp
  | cons item rest induction =>
      rw [List.anyM_cons, bind_eq_ok] at answered
      obtain ⟨passes, tested, answered⟩ := answered
      cases passes with
      | true => cases answered
      | false => exact List.forall_mem_cons.mpr ⟨tested, induction answered⟩

theorem forall_of_allM (answered : items.allM test = .ok true) :
    ∀ item ∈ items, test item = .ok true := by
  induction items with
  | nil => simp
  | cons item rest induction =>
      rw [List.allM_cons, bind_eq_ok] at answered
      obtain ⟨passes, tested, answered⟩ := answered
      cases passes with
      | true => exact List.forall_mem_cons.mpr ⟨tested, induction answered⟩
      | false => cases answered

theorem exists_of_allM (answered : items.allM test = .ok false) :
    ∃ item ∈ items, test item = .ok false := by
  induction items with
  | nil => cases answered
  | cons item rest induction =>
      rw [List.allM_cons, bind_eq_ok] at answered
      obtain ⟨passes, tested, answered⟩ := answered
      cases passes with
      | true =>
          obtain ⟨other, member, fails⟩ := induction answered
          exact ⟨other, List.mem_cons_of_mem _ member, fails⟩
      | false => exact ⟨item, List.mem_cons_self, tested⟩

/-- If the test tells what holds of an item, then so does the question whether some item
passes. -/
theorem anyM_iff {holds : α → Prop} {answer : Bool}
    (tells : ∀ item ∈ items, ∀ passes, test item = .ok passes →
      (passes = true ↔ holds item))
    (answered : items.anyM test = .ok answer) :
    answer = true ↔ ∃ item ∈ items, holds item := by
  cases answer with
  | true =>
      obtain ⟨item, member, passes⟩ := exists_of_anyM answered
      exact iff_of_true rfl ⟨item, member, (tells item member _ passes).mp rfl⟩
  | false =>
      refine iff_of_false Bool.false_ne_true ?_
      rintro ⟨item, member, isTrue⟩
      have fails := forall_of_anyM answered item member
      exact Bool.false_ne_true ((tells item member _ fails).mpr isTrue)

theorem allM_iff {holds : α → Prop} {answer : Bool}
    (tells : ∀ item ∈ items, ∀ passes, test item = .ok passes →
      (passes = true ↔ holds item))
    (answered : items.allM test = .ok answer) :
    answer = true ↔ ∀ item ∈ items, holds item := by
  cases answer with
  | true =>
      refine iff_of_true rfl fun item member => ?_
      exact (tells item member _ (forall_of_allM answered item member)).mp rfl
  | false =>
      refine iff_of_false Bool.false_ne_true fun all => ?_
      obtain ⟨item, member, fails⟩ := exists_of_allM answered
      exact Bool.false_ne_true ((tells item member _ fails).mpr (all item member))

/-- Whatever passes has something among the others that agrees with it, and vice
versa. -/
theorem Agrees.anyM
    (forth : ∀ item ∈ items, test item = .ok true →
      ∃ other ∈ others, Agrees (test item) (second other))
    (back : ∀ other ∈ others, second other = .ok true →
      ∃ item ∈ items, Agrees (test item) (second other)) :
    Agrees (items.anyM test) (others.anyM second) := by
  intro answer found answered answeredOther
  cases answer with
  | true =>
      cases found with
      | true => rfl
      | false =>
          obtain ⟨item, member, passes⟩ := exists_of_anyM answered
          obtain ⟨other, memberOther, agrees⟩ := forth item member passes
          exact agrees _ _ passes (forall_of_anyM answeredOther other memberOther)
  | false =>
      cases found with
      | true =>
          obtain ⟨other, memberOther, passes⟩ := exists_of_anyM answeredOther
          obtain ⟨item, member, agrees⟩ := back other memberOther passes
          exact agrees _ _ (forall_of_anyM answered item member) passes
      | false => rfl

/-- The same for questions about all items. -/
theorem Agrees.allM
    (forth : ∀ item ∈ items, ∃ other ∈ others, Agrees (test item) (second other))
    (back : ∀ other ∈ others, ∃ item ∈ items, Agrees (test item) (second other)) :
    Agrees (items.allM test) (others.allM second) := by
  intro answer found answered answeredOther
  cases answer with
  | true =>
      cases found with
      | true => rfl
      | false =>
          obtain ⟨other, memberOther, fails⟩ := exists_of_allM answeredOther
          obtain ⟨item, member, agrees⟩ := back other memberOther
          exact agrees _ _ (forall_of_allM answered item member) fails
  | false =>
      cases found with
      | true =>
          obtain ⟨item, member, fails⟩ := exists_of_allM answered
          obtain ⟨other, memberOther, agrees⟩ := forth item member
          exact agrees _ _ fails (forall_of_allM answeredOther other memberOther)
      | false => rfl

end

/-! ## The questions that matching asks -/

namespace Matching

variable {ν : Type}

/-- Whether an attempt ends with a match. -/
def isMatched (outcome : Except MatchError Attempt) : Except MatchError Bool :=
  return (← outcome) = .matched

theorem isMatched_eq_ok_iff {outcome : Except MatchError Attempt} {answer : Bool} :
    isMatched outcome = .ok answer ↔
      ∃ result, outcome = .ok result ∧ decide (result = .matched) = answer := by
  simp only [isMatched, bind_eq_ok, pure_eq_ok]

@[simp] theorem isMatched_eq_ok_true_iff {outcome : Except MatchError Attempt} :
    isMatched outcome = .ok true ↔ outcome = .ok .matched := by
  simp [isMatched_eq_ok_iff]

theorem isMatched_agrees {first second : Except MatchError Attempt}
    (agrees : Agrees first second) : Agrees (isMatched first) (isMatched second) :=
  agrees.bind fun _ => .refl _

theorem anyChain_eq_anyM (attempt : ChainMatcher ν) (node : ν) (selector : Selector) :
    anyChain attempt node selector =
      selector.anyM fun chain =>
        isMatched (attempt chain.subject chain.left node none) := by
  induction selector with
  | nil => rfl
  | cons chain rest induction =>
      rw [anyChain, List.anyM_cons, isMatched, induction]
      cases attempt chain.subject chain.left node none with
      | error failure => rfl
      | ok outcome => cases outcome <;> rfl

theorem anyCandidate_eq_anyM (attempt : ChainMatcher ν) (chain : Chain)
    (scope : Scope ν) (choices : List ν) :
    anyCandidate attempt chain scope choices =
      choices.anyM fun choice =>
        isMatched (attempt chain.subject chain.left choice scope) := by
  induction choices with
  | nil => rfl
  | cons choice rest induction =>
      rw [anyCandidate, List.anyM_cons, isMatched, induction]
      cases attempt chain.subject chain.left choice scope with
      | error failure => rfl
      | ok outcome => cases outcome <;> rfl

theorem has_eq_anyM [DecidableEq ν] (view : TreeView ν) (attempt : ChainMatcher ν)
    (node : ν) (selector : Selector) :
    has view attempt node selector =
      selector.anyM (fun chain => do
        let anchor := chain.anchor.getD .descendant
        anyCandidate attempt chain ⟨anchor, node⟩
          (← region view anchor chain.left.isEmpty node)) := by
  induction selector with
  | nil => rfl
  | cons chain rest induction =>
      rw [has, List.anyM_cons, induction, bind_assoc]

theorem allHold_eq_allM [DecidableEq ν] (view : TreeView ν) (attempt : ChainMatcher ν)
    (node : ν) (tag : String) (compound : Compound) :
    allHold view attempt node tag compound =
      compound.allM (simpleHolds view attempt node tag) := by
  induction compound with
  | nil => rfl
  | cons simple rest induction =>
      rw [allHold, List.allM_cons, induction]

end Matching

end TreeSelectors
