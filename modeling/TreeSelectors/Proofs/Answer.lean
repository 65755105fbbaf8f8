import TreeSelectors.Matching.Navigation

/-!
# Answers

What it takes for a computation that may fail to give an answer: every
computation that it consists of gives one.
-/

namespace TreeSelectors

instance decidableEqExcept {ε α : Type} [DecidableEq ε] [DecidableEq α] :
    DecidableEq (Except ε α)
  | .error left, .error right => decidable_of_iff (left = right) (by simp)
  | .ok left, .ok right => decidable_of_iff (left = right) (by simp)
  | .error _, .ok _ => isFalse (by simp)
  | .ok _, .error _ => isFalse (by simp)

section

variable {ε α β : Type}

@[simp] theorem bind_eq_ok {result : Except ε α} {next : α → Except ε β}
    {answer : β} :
    (result >>= next) = .ok answer ↔
      ∃ value, result = .ok value ∧ next value = .ok answer := by
  cases result with
  | error failure => simp [bind, Except.bind]
  | ok value => simp [bind, Except.bind]

@[simp] theorem pure_eq_ok {value answer : α} :
    (pure value : Except ε α) = .ok answer ↔ value = answer := by
  simp [pure, Except.pure]

@[simp] theorem throw_ne_ok {failure : ε} {answer : α} :
    (throw failure : Except ε α) = .ok answer ↔ False := by
  simp [throw, throwThe, MonadExceptOf.throw]

end

@[simp] theorem liftM_eq_ok {α : Type} {result : Except ViewError α} {answer : α} :
    (liftM result : Except MatchError α) = .ok answer ↔ result = .ok answer := by
  cases result with
  | error failure => simp [liftM, monadLift, MonadLift.monadLift]
  | ok value => simp [liftM, monadLift, MonadLift.monadLift]

/-! ## Failures that are ruled out -/

/-- A result that is an answer with some property, or a failure that is not
bad. -/
def Gives {ε α : Type} (bad : ε → Prop) (meets : α → Prop) : Except ε α → Prop
  | .ok answer => meets answer
  | .error failure => ¬ bad failure

namespace Gives

variable {ε α β : Type} {bad : ε → Prop} {meets : α → Prop} {reaches : β → Prop}

theorem pure {answer : α} (holds : meets answer) :
    Gives bad meets (Pure.pure answer) :=
  holds

theorem bind {result : Except ε α} {next : α → Except ε β}
    (first : Gives bad meets result)
    (step : ∀ answer, meets answer → Gives bad reaches (next answer)) :
    Gives bad reaches (result >>= next) := by
  cases result with
  | error failure => exact first
  | ok answer => exact step answer first

theorem mono {weaker : α → Prop} {result : Except ε α} (gives : Gives bad meets result)
    (weaken : ∀ answer, meets answer → weaker answer) : Gives bad weaker result := by
  cases result with
  | error failure => exact gives
  | ok answer => exact weaken answer gives

theorem of_answer {result : Except ε α} {answer : α} (answered : result = .ok answer)
    (holds : meets answer) : Gives bad meets result := by
  rw [answered]
  exact holds

/-- If all failures are bad, then there is an answer. -/
theorem exists_answer {result : Except ε α} (gives : Gives (fun _ => True) meets result) :
    ∃ answer, result = .ok answer ∧ meets answer := by
  cases result with
  | error failure => exact (gives trivial).elim
  | ok answer => exact ⟨answer, rfl, gives⟩

end Gives

end TreeSelectors
