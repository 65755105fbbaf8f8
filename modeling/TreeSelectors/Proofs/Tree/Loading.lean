import TreeSelectors.Proofs.Tree.Construction
import TreeSelectors.Tree.Notation

/-!
# Loaded trees

A tree that is read from its notation is linked, its document has no parent, and
every other node with children is an element.
-/

namespace TreeSelectors

namespace Tree

/-- What holds of a tree while the nodes of an outline are added below its
document. -/
structure Rooted (tree : Tree) : Prop where
  linked : tree.Linked
  root_lt : root < tree.size
  root_parent : tree.parent? root = none
  inner {child parent : NodeId} :
    tree.parent? child = some parent →
      parent = root ∨ (tree.element? parent).isSome

/-- Whether children may be added to a node. -/
def Bears (tree : Tree) (parent : NodeId) : Prop :=
  parent < tree.size ∧ (parent = root ∨ (tree.element? parent).isSome)

/-- The nodes of a tree stay what they are in another one. -/
def Extends (tree grown : Tree) : Prop :=
  tree.size ≤ grown.size ∧
    ∀ id < tree.size, grown.data? id = tree.data? id

theorem element?_eq (tree : Tree) (id : NodeId) :
    tree.element? id = (tree.data? id).bind fun
      | .element element => some element
      | _ => none := by
  rw [element?, data?]
  cases (tree.get? id).map Node.data with
  | none => rfl
  | some data => cases data <;> rfl

theorem Extends.trans {first second third : Tree} (left : first.Extends second)
    (right : second.Extends third) : first.Extends third := by
  refine ⟨Nat.le_trans left.1 right.1, fun id inside => ?_⟩
  rw [right.2 id (Nat.lt_of_lt_of_le inside left.1), left.2 id inside]

theorem Bears.extends {tree grown : Tree} {parent : NodeId}
    (bears : tree.Bears parent) (extended : tree.Extends grown) :
    grown.Bears parent := by
  refine ⟨Nat.lt_of_lt_of_le bears.1 extended.1, ?_⟩
  rw [element?_eq, extended.2 parent bears.1, ← element?_eq]
  exact bears.2

theorem attachNew_eq (tree : Tree) (parent : NodeId) (data : NodeData) :
    tree.attachNew parent data =
      ((tree.alloc data).1.attach parent tree.size, tree.size) :=
  rfl

@[simp] theorem size_attachNew (tree : Tree) (parent : NodeId) (data : NodeData) :
    (tree.attachNew parent data).1.size = tree.size + 1 := by
  simp [attachNew_eq]

theorem extends_attachNew (tree : Tree) (parent : NodeId) (data : NodeData) :
    tree.Extends (tree.attachNew parent data).1 := by
  constructor
  · simp
  · intro id inside
    simp [attachNew_eq, Nat.ne_of_lt inside]

namespace Rooted

variable {tree grown : Tree} {parent : NodeId}

theorem empty : Tree.empty.Rooted where
  linked := .empty
  root_lt := Nat.zero_lt_one
  root_parent := rfl
  inner := by
    intro child parent link
    have orphan : Tree.empty.parent? child = none := by
      cases child with
      | zero => rfl
      | succ child => rfl
    rw [orphan] at link
    cases link

theorem attachNew (rooted : tree.Rooted) (bears : tree.Bears parent)
    (data : NodeData) : (tree.attachNew parent data).1.Rooted := by
  have parentInTree : parent < (tree.alloc data).1.size := by
    simpa using Nat.lt_succ_of_lt bears.1
  have childInTree : tree.size < (tree.alloc data).1.size := by simp
  have free := @Linked.free_alloc tree parent data rooted.linked bears.1
  constructor
  case linked =>
    exact (rooted.linked.alloc data).attach parentInTree childInTree free.orphan
      free.different free.notAbove
  case root_lt =>
    exact Nat.lt_of_lt_of_le rooted.root_lt (extends_attachNew tree parent data).1
  case root_parent =>
    have different : root ≠ tree.size := Nat.ne_of_lt rooted.root_lt
    rw [attachNew_eq, parent?_attach childInTree]
    exact (if_neg different).trans (parent?_alloc.trans rooted.root_parent)
  case inner =>
    intro child other link
    have grows := extends_attachNew tree parent data
    rw [attachNew_eq, parent?_attach childInTree] at link
    split at link
    · cases link
      exact (bears.extends grows).2
    · rw [parent?_alloc] at link
      have inside := rooted.linked.parent_lt link
      exact (Bears.extends ⟨inside, rooted.inner link⟩ grows).2

end Rooted

/-- The place of a new element can have children of its own. -/
theorem bears_attachNew (tree : Tree) (parent : NodeId) (element : Element) :
    (tree.attachNew parent (.element element)).1.Bears
      (tree.attachNew parent (.element element)).2 := by
  constructor
  · simp [attachNew_eq]
  · right
    simp [element?_eq, attachNew_eq]

mutual

theorem Rooted.insert? {tree grown : Tree} {parent : NodeId}
    (rooted : tree.Rooted) (bears : tree.Bears parent) :
    (outline : Outline) → tree.insert? parent outline = some grown →
      grown.Rooted ∧ tree.Extends grown
  | .document children, inserted => by
      simp [Tree.insert?] at inserted
  | .element element children, inserted => by
      rw [Tree.insert?] at inserted
      have rest := Rooted.insertAll? (rooted.attachNew bears (.element element))
        (bears_attachNew tree parent element) children inserted
      exact ⟨rest.1, (extends_attachNew tree parent _).trans rest.2⟩
  | .text content, inserted => by
      rw [Tree.insert?] at inserted
      cases inserted
      exact ⟨rooted.attachNew bears _, extends_attachNew tree parent _⟩
  | .comment content, inserted => by
      rw [Tree.insert?] at inserted
      cases inserted
      exact ⟨rooted.attachNew bears _, extends_attachNew tree parent _⟩

theorem Rooted.insertAll? {tree grown : Tree} {parent : NodeId}
    (rooted : tree.Rooted) (bears : tree.Bears parent) :
    (outlines : List Outline) → tree.insertAll? parent outlines = some grown →
      grown.Rooted ∧ tree.Extends grown
  | [], inserted => by
      rw [Tree.insertAll?] at inserted
      cases inserted
      exact ⟨rooted, Nat.le_refl _, fun _ _ => rfl⟩
  | outline :: rest, inserted => by
      rw [Tree.insertAll?] at inserted
      cases first : tree.insert? parent outline with
      | none => simp [first] at inserted
      | some middle =>
          simp only [first] at inserted
          have front := Rooted.insert? rooted bears outline first
          have back := Rooted.insertAll? front.1 (bears.extends front.2) rest
            inserted
          exact ⟨back.1, front.2.trans back.2⟩

end

theorem rooted_of_ofOutline {outline : Outline} {tree : Tree}
    (made : ofOutline outline = some tree) : tree.Rooted := by
  have bears : Tree.empty.Bears root := ⟨Nat.zero_lt_one, Or.inl rfl⟩
  cases outline with
  | document children => exact (Rooted.empty.insertAll? bears children made).1
  | element element children => exact (Rooted.empty.insert? bears _ made).1
  | text content => exact (Rooted.empty.insert? bears _ made).1
  | comment content => exact (Rooted.empty.insert? bears _ made).1

theorem rooted_of_load {text : String} {tree : Tree}
    (loaded : load text = .ok tree) : tree.Rooted := by
  rw [load] at loaded
  split at loaded
  · cases loaded
  · split at loaded
    · cases loaded
    · rename_i made
      cases loaded
      exact rooted_of_ofOutline made

theorem Rooted.innerElements {tree : Tree} (rooted : tree.Rooted) :
    tree.forest.InnerElements := by
  intro child parent link plain
  have link : tree.parent? child = some parent := link
  rcases rooted.inner link with rfl | element
  · exact rooted.root_parent
  · simp [Forest.isElement, forest, element] at plain

end Tree

end TreeSelectors
