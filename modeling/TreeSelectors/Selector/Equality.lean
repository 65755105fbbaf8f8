import TreeSelectors.Selector

/-!
# Equality of selectors

Selectors are equal if they have the same form.  The comparison runs through
the nested arguments of functional pseudo-classes.
-/

namespace TreeSelectors

mutual

def Simple.same : Simple → Simple → Bool
  | .type left, .type right => left = right
  | .universal, .universal => true
  | .id left, .id right => left = right
  | .className left, .className right => left = right
  | .attribute left, .attribute right => left = right
  | .plain left, .plain right => left = right
  | .nth left leftFormula, .nth right rightFormula =>
      left = right && leftFormula = rightFormula
  | .functional left leftArgument, .functional right rightArgument =>
      left = right && Selector.same leftArgument rightArgument
  | .pseudoElement left, .pseudoElement right => left = right
  | _, _ => false

def Compound.same : List Simple → List Simple → Bool
  | [], [] => true
  | left :: lefts, right :: rights =>
      left.same right && Compound.same lefts rights
  | _, _ => false

def Chain.sameLeft :
    List (Combinator × List Simple) → List (Combinator × List Simple) → Bool
  | [], [] => true
  | (left, leftCompound) :: lefts, (right, rightCompound) :: rights =>
      left = right && Compound.same leftCompound rightCompound &&
        Chain.sameLeft lefts rights
  | _, _ => false

def Chain.same : Chain → Chain → Bool
  | ⟨leftSubject, lefts, leftAnchor⟩, ⟨rightSubject, rights, rightAnchor⟩ =>
      Compound.same leftSubject rightSubject && Chain.sameLeft lefts rights &&
        leftAnchor = rightAnchor

def Selector.same : List Chain → List Chain → Bool
  | [], [] => true
  | left :: lefts, right :: rights =>
      left.same right && Selector.same lefts rights
  | _, _ => false

end

mutual

@[simp] theorem Simple.same_iff (left right : Simple) :
    left.same right = true ↔ left = right := by
  cases left with
  | functional function argument =>
      cases right <;> simp [Simple.same, Selector.same_iff argument]
  | _ => cases right <;> simp [Simple.same]
termination_by structural left

@[simp] theorem Compound.same_iff (left right : List Simple) :
    Compound.same left right = true ↔ left = right := by
  cases left with
  | nil => cases right <;> simp [Compound.same]
  | cons first rest =>
      cases right with
      | nil => simp [Compound.same]
      | cons second others =>
          simp [Compound.same, Simple.same_iff first, Compound.same_iff rest]
termination_by structural left

@[simp] theorem Chain.sameLeft_iff (left right : List (Combinator × List Simple)) :
    Chain.sameLeft left right = true ↔ left = right := by
  cases left with
  | nil => cases right <;> simp [Chain.sameLeft]
  | cons first rest =>
      cases first with
      | mk combinator compound =>
          cases right with
          | nil => simp [Chain.sameLeft]
          | cons second others =>
              cases second with
              | mk other otherCompound =>
                  simp [Chain.sameLeft, Compound.same_iff compound,
                    Chain.sameLeft_iff rest]
termination_by structural left

@[simp] theorem Chain.same_iff (left right : Chain) :
    left.same right = true ↔ left = right := by
  cases left with
  | mk subject lefts anchor =>
      cases right with
      | mk otherSubject others otherAnchor =>
          simp [Chain.same, Compound.same_iff subject,
            Chain.sameLeft_iff lefts, and_assoc]
termination_by structural left

@[simp] theorem Selector.same_iff (left right : List Chain) :
    Selector.same left right = true ↔ left = right := by
  cases left with
  | nil => cases right <;> simp [Selector.same]
  | cons first rest =>
      cases right with
      | nil => simp [Selector.same]
      | cons second others =>
          simp [Selector.same, Chain.same_iff first, Selector.same_iff rest]
termination_by structural left

end

instance : DecidableEq Simple := fun left right =>
  decidable_of_iff _ (Simple.same_iff left right)

instance : DecidableEq Chain := fun left right =>
  decidable_of_iff _ (Chain.same_iff left right)

end TreeSelectors
