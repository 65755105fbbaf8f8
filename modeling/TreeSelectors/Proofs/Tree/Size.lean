import TreeSelectors.Proofs.Json
import TreeSelectors.Proofs.Tree.Saving
import TreeSelectors.Tree.Notation

/-!
# The size of a loaded tree

Every node of a tree takes a value of the JSON text that it is loaded from.  So a loaded
tree has at most half as many nodes as its notation has characters, up to a constant.
-/

namespace TreeSelectors

/-! ## The nodes of a notation -/

namespace Outline

@[simp] theorem length_preorder (outline : Outline) :
    outline.preorder.length = (preorderAll outline.children).length + 1 := by
  rw [preorder_eq, List.length_cons]

theorem length_preorderAll_cons (outline : Outline) (rest : List Outline) :
    (preorderAll (outline :: rest)).length =
      outline.preorder.length + (preorderAll rest).length := by
  rw [preorderAll, List.length_append]

/-- A member holds as many nodes as children at most as its value has values. -/
def Member.Fits (bound : Nat) (member : Member) : Prop :=
  ∀ outlines, member.children = some outlines → (preorderAll outlines).length ≤ bound

private theorem single?_mem {name : String} {members : List (String × Member)}
    {member : Member}
    (found : single? name members = some (some member)) :
    ∃ entry ∈ members, entry.2 = member := by
  rw [single?] at found
  split at found
  · cases found
  · rename_i entry kept
    cases found
    have member : entry ∈ members.filter (·.1 = name) := by
      rw [kept]
      exact List.mem_singleton_self entry
    exact ⟨entry, List.mem_of_mem_filter member, rfl⟩
  · cases found

/-- The children of a node come from the member for them. -/
theorem assemble_fits {bound : Nat} {member? : String → Option (Option Member)}
    (fits : ∀ name member, member? name = some (some member) → member.Fits bound)
    {kind : Kind} {outline : Outline} (made : assemble member? kind = some outline) :
    (preorderAll outline.children).length ≤ bound := by
  have children {read : Option Member} {outlines : List Outline}
      (found : member? "children" = some read)
      (given : readChildren read = some outlines) :
      (preorderAll outlines).length ≤ bound := by
    cases read with
    | none =>
        cases given
        exact Nat.zero_le bound
    | some member => exact fits "children" member found outlines given
  cases kind with
  | document =>
      simp only [assemble, Option.bind_eq_bind, Option.bind_eq_some_iff] at made
      obtain ⟨read, found, outlines, given, done⟩ := made
      cases done
      exact children found given
  | element =>
      simp only [assemble, Option.bind_eq_bind, Option.bind_eq_some_iff] at made
      obtain ⟨_, -, _, -, _, -, _, -, read, found, outlines, given, done⟩ := made
      cases done
      exact children found given
  | text | comment =>
      simp only [assemble, Option.bind_eq_bind, Option.bind_eq_some_iff] at made
      obtain ⟨_, -, _, -, done⟩ := made
      cases done
      exact Nat.zero_le bound

private theorem ofMembers_fits {bound : Nat} {nested : Bool}
    {members : List (String × Member)}
    (fits : ∀ entry ∈ members, entry.2.Fits bound) {outline : Outline}
    (made : ofMembers nested members = some outline) :
    (preorderAll outline.children).length ≤ bound := by
  simp only [ofMembers, Option.bind_eq_bind, Option.bind_eq_some_iff] at made
  obtain ⟨-, -, -, -, kind, -, made⟩ := made
  refine assemble_fits (fun name member found => ?_) made
  obtain ⟨entry, listed, rfl⟩ := single?_mem found
  exact fits entry listed

private theorem ofItems_fits {bound : Nat} {nested : Bool} {items : List Member}
    (fits : ∀ item ∈ items, item.Fits bound) {outline : Outline}
    (made : ofItems nested items = some outline) :
    (preorderAll outline.children).length ≤ bound := by
  simp only [ofItems, Option.bind_eq_bind, Option.bind_eq_some_iff] at made
  obtain ⟨-, -, kind, -, made⟩ := made
  split at made
  · cases made
  · refine assemble_fits (fun name member found => ?_) made
    obtain ⟨entry, listed, rfl⟩ := single?_mem found
    exact fits entry.2 (List.mem_of_mem_tail (List.of_mem_zip listed).2)

mutual

theorem length_preorder_le {nested : Bool} : (json : Json) → {outline : Outline} →
    ofJson? nested json = some outline → outline.preorder.length ≤ json.values
  | .object members, outline, made => by
      rw [ofJson?] at made
      have below := ofMembers_fits (namedMembers_fits members) made
      rw [length_preorder, Json.values]
      exact Nat.succ_le_succ below
  | .array items, outline, made => by
      rw [ofJson?] at made
      have below := ofItems_fits (listedMembers_fits items) made
      rw [length_preorder, Json.values]
      exact Nat.succ_le_succ below
  | .null, _, made | .boolean _, _, made | .number _, _, made | .string _, _, made => by
      simp [ofJson?] at made

private theorem childrenOf?_fits : (json : Json) → {outlines : List Outline} →
    childrenOf? json = some outlines → (preorderAll outlines).length ≤ json.values
  | .array items, outlines, made => by
      rw [childrenOf?] at made
      rw [Json.values]
      exact Nat.le_succ_of_le (ofAll?_fits items made)
  | .null, _, made | .boolean _, _, made | .number _, _, made | .string _, _, made
  | .object _, _, made => by
      simp [childrenOf?] at made

private theorem ofAll?_fits : (items : List Json) → {outlines : List Outline} →
    ofAll? items = some outlines →
      (preorderAll outlines).length ≤ Json.valuesOfItems items
  | [], outlines, made => by
      rw [ofAll?] at made
      cases made
      exact Nat.zero_le _
  | item :: rest, outlines, made => by
      rw [ofAll?] at made
      split at made
      · rename_i outline others first further
        cases made
        rw [length_preorderAll_cons, Json.valuesOfItems]
        exact Nat.add_le_add (length_preorder_le item first) (ofAll?_fits rest further)
      · cases made

private theorem namedMembers_fits : (members : List (String × Json)) →
    ∀ entry ∈ namedMembers members, entry.2.Fits (Json.valuesOfMembers members)
  | [], entry, listed => by
      rw [namedMembers] at listed
      cases listed
  | (name, value) :: rest, entry, listed => by
      rw [namedMembers, List.mem_cons] at listed
      rw [Json.valuesOfMembers]
      intro outlines given
      rcases listed with rfl | listed
      · exact Nat.le_add_right_of_le (childrenOf?_fits value given)
      · exact Nat.le_add_left_of_le (namedMembers_fits rest entry listed outlines given)

private theorem listedMembers_fits : (items : List Json) →
    ∀ item ∈ listedMembers items, item.Fits (Json.valuesOfItems items)
  | [], item, listed => by
      rw [listedMembers] at listed
      cases listed
  | value :: rest, item, listed => by
      rw [listedMembers, List.mem_cons] at listed
      rw [Json.valuesOfItems]
      intro outlines given
      rcases listed with rfl | listed
      · exact Nat.le_add_right_of_le (childrenOf?_fits value given)
      · exact Nat.le_add_left_of_le (listedMembers_fits rest item listed outlines given)

end

private theorem length_enclosed_le (outline : Outline) :
    (preorderAll outline.enclosed.children).length ≤ outline.preorder.length := by
  rw [preorderAll_enclosed, length_preorder, List.length_append, Nat.add_comm]
  refine Nat.add_le_add_left ?_ _
  cases outline.isDocument <;> simp

end Outline

namespace Tree

variable {text : String} {tree : Tree}

/-- A loaded tree has at most half as many nodes as its notation has characters, up to
the node for the document. -/
theorem size_le_of_load (loaded : load text = .ok tree) :
    2 * tree.size ≤ text.length + 3 := by
  rw [load] at loaded
  split at loaded
  · cases loaded
  · rename_i outline read
    split at loaded
    · cases loaded
    · rename_i made
      cases loaded
      obtain ⟨json, parsed, written⟩ := Option.bind_eq_some_iff.mp read
      have values := Json.values_le_of_parse? parsed
      have nodes := Nat.le_trans (Outline.length_enclosed_le outline)
        (Outline.length_preorder_le json written)
      have size : tree.size =
          1 + (Outline.preorderAll outline.enclosed.children).length := by
        have answers := answers_insert.2 outline.enclosed.children empty root
          Nat.zero_lt_one
        rw [← ofOutline_eq, made] at answers
        exact answers.1.size_eq
      omega

/-- A node has fewer siblings on both sides than there are nodes. -/
theorem Linked.siblings_lt (linked : tree.Linked) {node : NodeId}
    (inTree : node < tree.size) :
    (tree.forest.before node).length + (tree.forest.after node).length < tree.size := by
  cases link : tree.forest.parent node with
  | none =>
      simp only [Forest.before, Forest.after, link, List.length_nil]
      exact Nat.zero_lt_of_lt inTree
  | some parent =>
      have inside : tree.forest.children parent ⊆ List.range tree.size := by
        intro child member
        exact List.mem_range.mpr
          (lt_size_of_parent? (linked.consistent.mem_children_iff.mp member))
      have fewer := (List.subperm_of_subset (linked.consistent.children_nodup parent)
        inside).length_le
      rw [linked.consistent.children_eq link, List.length_append, List.length_cons,
        List.length_range] at fewer
      omega

end Tree

end TreeSelectors
