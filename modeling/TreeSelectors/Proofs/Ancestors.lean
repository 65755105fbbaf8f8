import Mathlib.Logic.Basic
import TreeSelectors.Proofs.Forest

/-!
# Ancestors

The nodes above a node form a single line, and where going from parent to parent
comes to an end, no node is above itself.
-/

namespace TreeSelectors

namespace Forest

variable {ν : Type} {forest : Forest ν}

/-- The nodes above a node, the nearest first. -/
inductive Lineage (forest : Forest ν) : ν → List ν → Prop where
  | top {node : ν} : forest.parent node = none → Lineage forest node []
  | under {node parent : ν} {further : List ν} :
      forest.parent node = some parent → Lineage forest parent further →
      Lineage forest node (parent :: further)

theorem Above.parent_iff {ancestor node : ν} :
    forest.Above ancestor node ↔
      ∃ parent, forest.parent node = some parent ∧
        (ancestor = parent ∨ forest.Above ancestor parent) := by
  constructor
  · intro above
    cases above with
    | parent link => exact ⟨ancestor, link, Or.inl rfl⟩
    | further link rest => exact ⟨_, link, Or.inr rest⟩
  · intro linked
    obtain ⟨parent, link, rfl | rest⟩ := linked
    · exact .parent link
    · exact .further link rest

theorem Above.trans {first second third : ν}
    (upper : forest.Above first second) (lower : forest.Above second third) :
    forest.Above first third := by
  induction lower with
  | parent link => exact .further link upper
  | further link _ induction => exact .further link induction

/-- What is below a node is one of its children or below one of them. -/
theorem Above.child_iff {ancestor node : ν} :
    forest.Above ancestor node ↔
      ∃ child, forest.parent child = some ancestor ∧
        (node = child ∨ forest.Above child node) := by
  constructor
  · intro above
    induction above with
    | @parent node link => exact ⟨node, link, Or.inl rfl⟩
    | @further node parent link _ induction =>
        obtain ⟨child, childLink, same | below⟩ := induction
        · exact ⟨child, childLink, Or.inr (.parent (same ▸ link))⟩
        · exact ⟨child, childLink, Or.inr (.further link below)⟩
  · intro linked
    obtain ⟨child, link, rfl | below⟩ := linked
    · exact .parent link
    · exact Above.trans (.parent link) below

theorem Lineage.mem_iff {node ancestor : ν} {lineage : List ν}
    (complete : forest.Lineage node lineage) :
    ancestor ∈ lineage ↔ forest.Above ancestor node := by
  induction complete with
  | top orphan =>
      rw [Above.parent_iff, orphan]
      simp
  | @under node parent further link _ induction =>
      rw [List.mem_cons, induction, @Above.parent_iff _ _ _ node]
      simp [link]

/-- What follows a node in a lineage is the node's own lineage. -/
theorem Lineage.of_append_cons {node ancestor : ν} {nearer further : List ν}
    (complete : forest.Lineage node (nearer ++ ancestor :: further)) :
    forest.Lineage ancestor further := by
  induction nearer generalizing node with
  | nil =>
      cases complete with
      | under _ rest => exact rest
  | cons first nearer induction =>
      cases complete with
      | under _ rest => exact induction rest

/-- Two nodes above the same node are above each other, or the same. -/
theorem Above.comparable {left right node : ν} (first : forest.Above left node)
    (second : forest.Above right node) :
    left = right ∨ forest.Above left right ∨ forest.Above right left := by
  induction first with
  | parent link =>
      obtain ⟨parent, same, place⟩ := Above.parent_iff.mp second
      rw [link] at same
      cases same
      rcases place with rfl | above
      · exact Or.inl rfl
      · exact Or.inr (Or.inr above)
  | further link above induction =>
      obtain ⟨parent, same, place⟩ := Above.parent_iff.mp second
      rw [link] at same
      cases same
      rcases place with rfl | higher
      · exact Or.inr (Or.inl above)
      · exact induction higher

theorem Acyclic.not_above_self (acyclic : forest.Acyclic) (node : ν) :
    ¬ forest.Above node node := by
  induction node using WellFounded.induction acyclic with
  | _ node induction =>
      intro above
      obtain ⟨parent, link, place⟩ := Above.parent_iff.mp above
      have own : forest.Above parent node := .parent link
      rcases place with rfl | higher
      · exact induction node link own
      · exact induction parent link (own.trans higher)

theorem Acyclic.exists_lineage (acyclic : forest.Acyclic) (node : ν) :
    ∃ lineage, forest.Lineage node lineage := by
  induction node using WellFounded.induction acyclic with
  | _ node induction =>
      cases link : forest.parent node with
      | none => exact ⟨[], .top link⟩
      | some parent =>
          obtain ⟨lineage, complete⟩ := induction parent link
          exact ⟨parent :: lineage, .under link complete⟩

theorem Lineage.nodup (acyclic : forest.Acyclic) {node : ν} {lineage : List ν}
    (complete : forest.Lineage node lineage) : (node :: lineage).Nodup := by
  induction complete with
  | top orphan => simp
  | under link rest induction =>
      refine List.nodup_cons.mpr ⟨fun member => ?_, induction⟩
      exact acyclic.not_above_self _
        ((Lineage.under link rest).mem_iff.mp member)

/-- Children of one node are not above each other. -/
theorem Acyclic.not_above_sibling (acyclic : forest.Acyclic)
    {parent left right : ν} (leftLink : forest.parent left = some parent)
    (rightLink : forest.parent right = some parent) :
    ¬ forest.Above left right := by
  intro above
  obtain ⟨upper, link, place⟩ := Above.parent_iff.mp above
  rw [rightLink] at link
  cases link
  rcases place with rfl | higher
  · exact acyclic.not_above_self left (.parent leftLink)
  · exact acyclic.not_above_self left (higher.trans (.parent leftLink))

end Forest

end TreeSelectors
