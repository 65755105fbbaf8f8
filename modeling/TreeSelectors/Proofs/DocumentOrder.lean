import TreeSelectors.Proofs.Matching.Navigation

/-!
# Document order

The document order of a forest lists each node in front of everything below it.
A walk with a stack visits the nodes in this order, and where no path of links
goes in a circle, the order lists each node once.
-/

namespace TreeSelectors

namespace Forest

variable {ν : Type} {forest : Forest ν}

/-- `forest.Preorder nodes listing`: the listing has the nodes in their order,
each followed by the listing of its children. -/
inductive Preorder (forest : Forest ν) : List ν → List ν → Prop where
  | nil : Preorder forest [] []
  | cons {node : ν} {rest below others : List ν} :
      Preorder forest (forest.children node) below →
      Preorder forest rest others →
      Preorder forest (node :: rest) (node :: (below ++ others))

namespace Preorder

theorem append {first second listing others : List ν}
    (left : forest.Preorder first listing)
    (right : forest.Preorder second others) :
    forest.Preorder (first ++ second) (listing ++ others) := by
  induction left with
  | nil => exact right
  | cons inner _ _ induction =>
      rw [List.cons_append, List.cons_append, List.append_assoc]
      exact .cons inner induction

theorem exists_append {first second listing : List ν}
    (listed : forest.Preorder (first ++ second) listing) :
    ∃ front back, listing = front ++ back ∧ forest.Preorder first front ∧
      forest.Preorder second back := by
  induction first generalizing listing with
  | nil => exact ⟨[], listing, rfl, .nil, listed⟩
  | cons node rest induction =>
      cases listed with
      | @cons _ _ below _ inner outer =>
          obtain ⟨front, back, rfl, restListed, secondListed⟩ := induction outer
          exact ⟨node :: (below ++ front), back, by simp, .cons inner restListed,
            secondListed⟩

/-- A list of nodes has only one listing. -/
theorem unique {nodes listing other : List ν}
    (left : forest.Preorder nodes listing) (right : forest.Preorder nodes other) :
    listing = other := by
  induction left generalizing other with
  | nil => cases right; rfl
  | cons _ _ inner rest =>
      cases right with
      | cons below others => rw [inner below, rest others]

theorem mem_iff (consistent : forest.Consistent) {nodes listing : List ν}
    (listed : forest.Preorder nodes listing) {node : ν} :
    node ∈ listing ↔ ∃ top ∈ nodes, node = top ∨ forest.Above top node := by
  induction listed with
  | nil => simp
  | @cons first rest below others _ _ inner outer =>
      have underFirst : node ∈ below ↔ forest.Above first node := by
        rw [inner, Above.child_iff]
        simp only [consistent.mem_children_iff]
      simp only [List.mem_cons, List.mem_append, exists_eq_or_imp, underFirst,
        outer, or_assoc]

end Preorder

/-- The listing of nodes that are not above each other has each node once. -/
theorem Preorder.nodup (consistent : forest.Consistent)
    (acyclic : forest.Acyclic) {nodes listing : List ν}
    (listed : forest.Preorder nodes listing) (distinct : nodes.Nodup)
    (apart : ∀ left ∈ nodes, ∀ right ∈ nodes, ¬ forest.Above left right) :
    listing.Nodup := by
  induction listed with
  | nil => exact List.nodup_nil
  | @cons first rest below others inner outer innerNodup outerNodup =>
      have underFirst {node : ν} (member : node ∈ below) :
          forest.Above first node := by
        obtain ⟨child, isChild, place⟩ := (inner.mem_iff consistent).mp member
        exact Above.child_iff.mpr
          ⟨child, consistent.mem_children_iff.mp isChild, place⟩
      have belowDistinct := innerNodup (consistent.children_nodup first)
        fun left leftMember right rightMember =>
          acyclic.not_above_sibling (consistent.mem_children_iff.mp leftMember)
            (consistent.mem_children_iff.mp rightMember)
      have othersDistinct := outerNodup (List.nodup_cons.mp distinct).2
        fun left leftMember right rightMember =>
          apart left (List.mem_cons_of_mem _ leftMember) right
            (List.mem_cons_of_mem _ rightMember)
      rw [List.nodup_cons, List.mem_append, List.nodup_append]
      refine ⟨?_, belowDistinct, othersDistinct, ?_⟩
      · intro either
        obtain member | member := either
        · exact acyclic.not_above_self first (underFirst member)
        · obtain ⟨top, isTop, rfl | above⟩ := (outer.mem_iff consistent).mp member
          · exact (List.nodup_cons.mp distinct).1 isTop
          · exact apart top (List.mem_cons_of_mem _ isTop) first
              List.mem_cons_self above
      · rintro node member _ other rfl
        have fromFirst := underFirst member
        obtain ⟨top, isTop, rfl | above⟩ := (outer.mem_iff consistent).mp other
        · exact apart first List.mem_cons_self node
            (List.mem_cons_of_mem _ isTop) fromFirst
        · have isTop' := List.mem_cons_of_mem first isTop
          rcases fromFirst.comparable above with rfl | higher | lower
          · exact (List.nodup_cons.mp distinct).1 isTop
          · exact apart first List.mem_cons_self top isTop' higher
          · exact apart top isTop' first List.mem_cons_self lower

end Forest

namespace TreeView.Tells

variable {ν : Type} [DecidableEq ν] {view : TreeView ν} {forest : Forest ν}

/-- A walk that arrives has kept the nodes that pass the test, in document
order. -/
theorem walk_eq_filter (tells : view.Tells forest)
    {test : ν → Except MatchError Bool} {stack : List (Nat × ν)}
    {found listing : List ν} (answered : view.walk test stack = .ok found)
    (listed : forest.Preorder (stack.map Prod.snd) listing) :
    found = listing.filter fun node => test node = .ok true := by
  fun_induction TreeView.walk view test stack generalizing found listing with
  | case1 =>
      simp only [pure_eq_ok] at answered
      cases listed
      exact answered.symm
  | case2 => simp at answered
  | case3 levels first rest induction =>
      simp only [bind_eq_ok, pure_eq_ok, liftM_eq_ok] at answered
      obtain ⟨keep, kept, children, known, others, collected, rfl⟩ := answered
      cases listed with
      | cons inner outer =>
          rw [← tells.children known] at inner
          have further := induction children collected
            (by simpa [Function.comp_def] using inner.append outer)
          rw [List.filter_cons, ← further, kept]
          cases keep <;> simp

end TreeView.Tells

end TreeSelectors
