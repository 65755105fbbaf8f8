import TreeSelectors.Proofs.Forest

/-!
# Siblings

In a consistent forest, a node splits the children of its parent into the
siblings in front of it and those after it.
-/

namespace TreeSelectors

namespace Forest

variable {ν : Type} [DecidableEq ν] {forest : Forest ν}

theorem Consistent.before_eq (consistent : forest.Consistent)
    {parent node : ν} {front back : List ν}
    (split : forest.children parent = front ++ node :: back) :
    forest.before node = front := by
  have link : forest.parent node = some parent :=
    consistent.mem_children_iff.mp (by simp [split])
  have distinct := consistent.children_nodup parent
  rw [split, List.nodup_append] at distinct
  have absent : ∀ sibling ∈ front, sibling ≠ node := by
    intro sibling member
    exact distinct.2.2 sibling member node List.mem_cons_self
  simp only [before, link, split]
  rw [List.takeWhile_append_of_pos (by simpa using absent)]
  simp

theorem Consistent.after_eq (consistent : forest.Consistent)
    {parent node : ν} {front back : List ν}
    (split : forest.children parent = front ++ node :: back) :
    forest.after node = back := by
  have link : forest.parent node = some parent :=
    consistent.mem_children_iff.mp (by simp [split])
  have distinct := consistent.children_nodup parent
  rw [split, List.nodup_append] at distinct
  have absent : ∀ sibling ∈ front, sibling ≠ node := by
    intro sibling member
    exact distinct.2.2 sibling member node List.mem_cons_self
  simp only [after, link, split]
  rw [List.dropWhile_append_of_pos (by simpa using absent)]
  simp

theorem Consistent.children_eq (consistent : forest.Consistent)
    {parent node : ν} (link : forest.parent node = some parent) :
    forest.children parent =
      forest.before node ++ node :: forest.after node := by
  obtain ⟨front, back, split⟩ :=
    List.append_of_mem (consistent.mem_children_iff.mpr link)
  rw [consistent.before_eq split, consistent.after_eq split, split]

/-- A node in front of another one is a child of the same parent, and the nodes
in front of it are the first of those in front of the other one. -/
theorem Consistent.of_mem_before (consistent : forest.Consistent)
    {left right : ν} {front back : List ν}
    (split : forest.before right = front ++ left :: back) :
    ∃ parent, forest.parent right = some parent ∧
      forest.parent left = some parent ∧ forest.before left = front ∧
      forest.after left = back ++ right :: forest.after right := by
  cases link : forest.parent right with
  | none => simp [before, link] at split
  | some parent =>
      have all := consistent.children_eq link
      rw [split, List.append_assoc, List.cons_append] at all
      refine ⟨parent, rfl, ?_, consistent.before_eq all,
        consistent.after_eq all⟩
      exact consistent.mem_children_iff.mp (by simp [all])

theorem Consistent.parent_eq_of_mem_before (consistent : forest.Consistent)
    {left right : ν} (member : left ∈ forest.before right) :
    forest.parent left = forest.parent right := by
  obtain ⟨front, back, split⟩ := List.append_of_mem member
  obtain ⟨parent, rightLink, leftLink, -, -⟩ := consistent.of_mem_before split
  rw [rightLink, leftLink]

theorem Consistent.mem_after_iff (consistent : forest.Consistent)
    {left right : ν} :
    right ∈ forest.after left ↔ left ∈ forest.before right := by
  constructor
  · intro member
    cases link : forest.parent left with
    | none => simp [after, link] at member
    | some parent =>
        obtain ⟨front, back, split⟩ := List.append_of_mem member
        have all := consistent.children_eq link
        rw [split, ← List.cons_append, ← List.append_assoc] at all
        rw [consistent.before_eq all]
        simp
  · intro member
    obtain ⟨front, back, split⟩ := List.append_of_mem member
    obtain ⟨-, -, -, -, behind⟩ := consistent.of_mem_before split
    simp [behind]

theorem Consistent.mem_before_trans (consistent : forest.Consistent)
    {first second third : ν} (left : first ∈ forest.before second)
    (right : second ∈ forest.before third) : first ∈ forest.before third := by
  obtain ⟨front, back, split⟩ := List.append_of_mem right
  obtain ⟨-, -, -, prior, -⟩ := consistent.of_mem_before split
  rw [split, ← prior]
  exact List.mem_append_left _ left

theorem Consistent.not_mem_before_self (consistent : forest.Consistent)
    (node : ν) : node ∉ forest.before node := by
  intro member
  cases link : forest.parent node with
  | none => simp [before, link] at member
  | some parent =>
      have distinct := consistent.children_nodup parent
      rw [consistent.children_eq link, List.nodup_append] at distinct
      exact distinct.2.2 node member node List.mem_cons_self rfl

end Forest

end TreeSelectors
