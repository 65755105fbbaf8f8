import Mathlib.Data.List.Induction
import TreeSelectors.WarningSet

/-!
# What a set of warnings remembers

A warning is remembered by a text in which its component and its message run together.
Two different warnings have the same text exactly if the one splits the message of the
other where its component ends in the same way.  So the set answers for every warning
that was given since it was last cleared, and besides only for those that clash with
one of them; where no component contains the text that separates it from the message,
there are none of these.
-/

namespace TreeSelectors

namespace WarningSet

/-- A call to a set of warnings. -/
inductive Call where
  | warn (component message : String)
  | ask (component message : String)
  | clear
deriving DecidableEq

/-- The set after a call. -/
def call (warnings : WarningSet) : Call → WarningSet
  | .warn component message => (warnings.warn component message).1
  | .ask _ _ => warnings
  | .clear => .empty

/-- The set after some calls, the first of which is made to the empty set. -/
def after (calls : List Call) : WarningSet :=
  calls.foldl call .empty

/-- A warning is among the calls behind the last one that clears the set. -/
def Given (calls : List Call) (component message : String) : Prop :=
  ∃ front back, calls = front ++ .warn component message :: back ∧ .clear ∉ back

/-- The component of the second warning goes on behind the one of the first, and takes
from its message what it goes on with. -/
def Absorbs (component message other otherMessage : String) : Prop :=
  ∃ part, other = component ++ "] " ++ part ∧ message = part ++ "] " ++ otherMessage

/-! ## Keys -/

@[simp] theorem toList_key (component message : String) :
    (key component message).toList =
      '[' :: (component.toList ++ ']' :: ' ' :: message.toList) := by
  simp [key]

private theorem key_eq_of_absorbs {component message other otherMessage : String}
    (absorbs : Absorbs component message other otherMessage) :
    key component message = key other otherMessage := by
  obtain ⟨part, rfl, rfl⟩ := absorbs
  simp [key, String.append_assoc]

/-- What stands behind the shorter of two components whose keys are the same. -/
theorem absorbs_of_append {component message other otherMessage : String} {part : List Char}
    (longer : other.toList = component.toList ++ part)
    (rest : ']' :: ' ' :: message.toList =
      part ++ ']' :: ' ' :: otherMessage.toList) :
    (component = other ∧ message = otherMessage) ∨
      Absorbs component message other otherMessage := by
  match part, rest with
  | [], rest =>
      left
      rw [List.nil_append, List.cons.injEq, List.cons.injEq] at rest
      rw [List.append_nil] at longer
      exact ⟨String.toList_inj.mp longer.symm, String.toList_inj.mp rest.2.2⟩
  | [_], rest => simp at rest
  | first :: second :: part, rest =>
      right
      simp only [List.cons_append, List.cons.injEq] at rest
      obtain ⟨rfl, rfl, rest⟩ := rest
      refine ⟨String.ofList part, String.toList_inj.mp ?_, String.toList_inj.mp ?_⟩
      · simp [longer]
      · simp [rest]

/-- Two warnings have the same key exactly if they are the same, or one of them absorbs
a part of the message of the other. -/
theorem key_eq_key_iff {component message other otherMessage : String} :
    key component message = key other otherMessage ↔
      (component = other ∧ message = otherMessage) ∨
        Absorbs component message other otherMessage ∨
        Absorbs other otherMessage component message := by
  constructor
  · intro same
    rw [← String.toList_inj, toList_key, toList_key, List.cons.injEq,
      List.append_eq_append_iff] at same
    obtain ⟨part, longer, rest⟩ | ⟨part, longer, rest⟩ := same.2
    · exact (absorbs_of_append longer rest).imp_right Or.inl
    · obtain ⟨rfl, rfl⟩ | absorbs := absorbs_of_append longer rest
      · exact Or.inl ⟨rfl, rfl⟩
      · exact Or.inr (Or.inr absorbs)
  · rintro (⟨rfl, rfl⟩ | absorbs | absorbs)
    · rfl
    · exact key_eq_of_absorbs absorbs
    · exact (key_eq_of_absorbs absorbs).symm

/-! ## Runs -/

theorem contains_eq_true_iff {warnings : WarningSet} {component message : String} :
    warnings.contains component message = true ↔
      key component message ∈ warnings.given := by
  simp [contains]

@[simp] theorem contains_warn {warnings : WarningSet}
    {component message other otherMessage : String} :
    (warnings.warn component message).1.contains other otherMessage = true ↔
      key component message = key other otherMessage ∨
        warnings.contains other otherMessage = true := by
  simp only [warn]
  split
  · rename_i known
    refine (or_iff_right_of_imp fun same => ?_).symm
    rwa [contains, same] at known
  · rw [contains_eq_true_iff, contains_eq_true_iff, List.mem_cons, eq_comm]

@[simp] theorem after_append_singleton (calls : List Call) (next : Call) :
    after (calls ++ [next]) = (after calls).call next := by
  simp [after]

theorem given_append_singleton_iff {calls : List Call} {next : Call}
    {component message : String} :
    Given (calls ++ [next]) component message ↔
      next = .warn component message ∨ next ≠ .clear ∧ Given calls component message := by
  constructor
  · rintro ⟨front, back, split, uncleared⟩
    obtain rfl | ⟨inner, last, rfl⟩ := List.eq_nil_or_concat back
    · exact Or.inl (List.singleton_inj.mp (List.append_inj' split rfl).2)
    · rw [List.concat_eq_append] at split uncleared
      rw [← List.cons_append, ← List.append_assoc] at split
      obtain ⟨rfl, same⟩ := List.append_inj' split rfl
      obtain rfl := List.singleton_inj.mp same
      rw [List.mem_append, not_or, List.mem_singleton] at uncleared
      exact Or.inr ⟨Ne.symm uncleared.2, front, inner, rfl, uncleared.1⟩
  · rintro (rfl | ⟨keeps, front, back, rfl, uncleared⟩)
    · exact ⟨calls, [], rfl, List.not_mem_nil⟩
    · refine ⟨front, back ++ [next], by simp, ?_⟩
      rw [List.mem_append, not_or, List.mem_singleton]
      exact ⟨uncleared, Ne.symm keeps⟩

/-- The set contains the warnings with the keys of those that were given since it was
last cleared. -/
theorem contains_after_iff_key (calls : List Call) (other otherMessage : String) :
    (after calls).contains other otherMessage = true ↔
      ∃ component message, Given calls component message ∧
        key component message = key other otherMessage := by
  induction calls using List.reverseRecOn with
  | nil => simp [after, contains, empty, Given]
  | append_singleton calls next induction =>
      rw [after_append_singleton]
      simp only [given_append_singleton_iff]
      cases next with
      | warn component message =>
          rw [call, contains_warn, induction]
          constructor
          · rintro (same | ⟨first, second, given, same⟩)
            · exact ⟨component, message, Or.inl rfl, same⟩
            · exact ⟨first, second, Or.inr ⟨Call.noConfusion, given⟩, same⟩
          · rintro ⟨first, second, given | ⟨-, given⟩, same⟩
            · cases given
              exact Or.inl same
            · exact Or.inr ⟨first, second, given, same⟩
      | ask component message => simp [call, induction]
      | clear => simp [call, contains, empty]

private theorem infix_of_absorbs {component message other otherMessage : String}
    (absorbs : Absorbs component message other otherMessage) :
    [']', ' '] <:+: other.toList := by
  obtain ⟨part, rfl, -⟩ := absorbs
  exact ⟨component.toList, part.toList, by simp⟩

/-- After any run of calls, the set answers that a warning was given exactly if it was
given since the set was last cleared, or one that clashes with it was: the component of
one goes on behind that of the other and takes a part of its message.  A warning is
written exactly if the set does not answer so before.  If neither the component of the
warning nor that of any warning given contains the text that ends components, then the
answer is exactly whether the warning was given. -/
theorem contains_after_iff (calls : List Call) (component message : String) :
    ((after calls).contains component message = true ↔
        Given calls component message ∨ ∃ other otherMessage,
          Given calls other otherMessage ∧
            (Absorbs component message other otherMessage ∨
              Absorbs other otherMessage component message)) ∧
      ((after calls).warn component message).2 =
        (if (after calls).contains component message = true then none
          else some (line component message)) ∧
      (¬ [']', ' '] <:+: component.toList →
        (∀ other otherMessage, Given calls other otherMessage →
          ¬ [']', ' '] <:+: other.toList) →
        ((after calls).contains component message = true ↔
          Given calls component message)) := by
  have answers : (after calls).contains component message = true ↔
      Given calls component message ∨ ∃ other otherMessage,
        Given calls other otherMessage ∧
          (Absorbs component message other otherMessage ∨
            Absorbs other otherMessage component message) := by
    rw [contains_after_iff_key]
    constructor
    · rintro ⟨other, otherMessage, given, same⟩
      obtain ⟨rfl, rfl⟩ | absorbs | absorbs := key_eq_key_iff.mp same
      · exact Or.inl given
      · exact Or.inr ⟨other, otherMessage, given, Or.inr absorbs⟩
      · exact Or.inr ⟨other, otherMessage, given, Or.inl absorbs⟩
    · rintro (given | ⟨other, otherMessage, given, absorbs⟩)
      · exact ⟨component, message, given, rfl⟩
      · exact ⟨other, otherMessage, given, key_eq_key_iff.mpr (Or.inr absorbs.symm)⟩
  refine ⟨answers, ?_, fun plain othersPlain => ?_⟩
  · simp only [warn]
    split <;> rfl
  · rw [answers, or_iff_left]
    rintro ⟨other, otherMessage, given, absorbs | absorbs⟩
    · exact othersPlain other otherMessage given (infix_of_absorbs absorbs)
    · exact plain (infix_of_absorbs absorbs)

/-- A run in which the set is cleared. -/
def clearedCalls : List Call :=
  [.warn "a] b" "c", .clear, .warn "Select" "hover"]

theorem eq_of_given_clearedCalls {component message : String}
    (given : Given clearedCalls component message) : component = "Select" := by
  obtain given | ⟨-, given⟩ := (@given_append_singleton_iff
    [.warn "a] b" "c", .clear] _ _ _).mp given
  · cases given
    rfl
  · obtain given | ⟨cleared, -⟩ := (@given_append_singleton_iff
      [.warn "a] b" "c"] _ _ _).mp given
    · cases given
    · exact absurd rfl cleared

/-- What was given before the set was cleared does not count, so that nothing clashes
behind. -/
theorem contains_after_iff_cleared :
    ¬ [']', ' '] <:+: "Select".toList ∧
      (∀ other otherMessage, Given clearedCalls other otherMessage →
        ¬ [']', ' '] <:+: other.toList) ∧
      Given clearedCalls "Select" "hover" ∧
      (after clearedCalls).contains "Select" "hover" = true := by
  have plain : ¬ [']', ' '] <:+: "Select".toList := by decide
  have othersPlain (other otherMessage : String)
      (given : Given clearedCalls other otherMessage) :
      ¬ [']', ' '] <:+: other.toList := by
    rwa [eq_of_given_clearedCalls given]
  have given : Given clearedCalls "Select" "hover" :=
    ⟨[.warn "a] b" "c", .clear], [], rfl, List.not_mem_nil⟩
  have answers := (contains_after_iff clearedCalls "Select" "hover").2.2 plain othersPlain
  exact ⟨plain, othersPlain, given, answers.mpr given⟩

/-- The set answers for a warning that was never given, and does not write it, since
another one has the same key. -/
theorem not_contains_iff_given :
    ¬ Given [.warn "a] b" "c"] "a" "b] c" ∧
      (after [.warn "a] b" "c"]).contains "a" "b] c" = true ∧
      ((after [.warn "a] b" "c"]).warn "a" "b] c").2 = none := by
  refine ⟨fun given => ?_, by decide, by decide⟩
  obtain given | ⟨-, given⟩ := (@given_append_singleton_iff [] _ _ _).mp given
  · exact absurd given (by decide)
  · obtain ⟨front, back, split, -⟩ := given
    simp at split

end WarningSet

end TreeSelectors
