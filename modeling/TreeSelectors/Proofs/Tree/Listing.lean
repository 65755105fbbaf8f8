import TreeSelectors.Proofs.DocumentOrder
import TreeSelectors.Proofs.Tree.View

/-!
# Outlines in document order

The nodes of an outline, listed in document order, take the places of a tree one after
the other.  A tree in which they do so holds the outline: the outline can be read off
again at the place of each node, and the document order of the tree counts the places
upwards.
-/

namespace TreeSelectors

namespace Outline

/-- What the topmost node is, apart from its children. -/
def data : Outline → NodeData
  | .document _ => .document
  | .element itself _ => .element itself
  | .text content => .text content
  | .comment content => .comment content

def children : Outline → List Outline
  | .document children => children
  | .element _ children => children
  | .text _ => []
  | .comment _ => []

def isDocument : Outline → Bool
  | .document _ => true
  | _ => false

mutual

/-- The outlines of all nodes, each with everything below it, in document order. -/
def preorder : Outline → List Outline
  | .document children => .document children :: preorderAll children
  | .element data children => .element data children :: preorderAll children
  | .text content => [.text content]
  | .comment content => [.comment content]

def preorderAll : List Outline → List Outline
  | [] => []
  | outline :: rest => outline.preorder ++ preorderAll rest

end

theorem preorder_eq (outline : Outline) :
    outline.preorder = outline :: preorderAll outline.children := by
  cases outline <;> simp [preorder, children, preorderAll]

@[simp] theorem preorderAll_append (front back : List Outline) :
    preorderAll (front ++ back) = preorderAll front ++ preorderAll back := by
  induction front with
  | nil => simp [preorderAll]
  | cons outline rest induction => simp [preorderAll, induction]

@[simp] theorem preorderAll_singleton (outline : Outline) :
    preorderAll [outline] = outline.preorder := by
  simp [preorderAll]

/-- An outline as a document: itself, or the only child of one. -/
def enclosed : Outline → Outline
  | .document children => .document children
  | outline => .document [outline]

/-- Whether a document stands below another node. -/
def NestsDocument (outline : Outline) : Prop :=
  ∃ inner ∈ preorderAll outline.children, inner.isDocument = true

instance (outline : Outline) : Decidable outline.NestsDocument :=
  inferInstanceAs (Decidable (∃ inner ∈ _, _))

/-- The outlines of all nodes other than documents, in document order. -/
def contents (outline : Outline) : List Outline :=
  outline.preorder.filter (!·.isDocument)

/-- The document around an outline has the topmost node below it, unless this is the
document. -/
theorem preorderAll_enclosed (outline : Outline) :
    preorderAll outline.enclosed.children =
      (if outline.isDocument then [] else [outline]) ++
        preorderAll outline.children := by
  cases outline <;> simp [enclosed, children, isDocument, preorderAll, preorder]

theorem nestsDocument_iff {outline : Outline} :
    outline.NestsDocument ↔
      ∃ inner ∈ preorderAll outline.enclosed.children, inner.isDocument = true := by
  rw [preorderAll_enclosed, NestsDocument]
  cases isDocument : outline.isDocument with
  | true => simp
  | false => simp [isDocument]

theorem contents_eq {outline : Outline} (plain : ¬ outline.NestsDocument) :
    outline.contents = preorderAll outline.enclosed.children := by
  have below : (preorderAll outline.children).filter (!·.isDocument) =
      preorderAll outline.children := by
    rw [List.filter_eq_self]
    intro inner member
    rw [Bool.not_eq_true']
    exact eq_false_of_ne_true fun isDocument => plain ⟨inner, member, isDocument⟩
  rw [contents, preorder_eq, List.filter_cons, below, preorderAll_enclosed]
  cases outline.isDocument <;> rfl

/-- What holds of an outline if it holds of its children holds of all outlines. -/
theorem forall_of_children {holds : Outline → Prop} {holdsAll : List Outline → Prop}
    (node : ∀ outline : Outline, holdsAll outline.children → holds outline)
    (nil : holdsAll [])
    (cons : ∀ outline rest,
      holds outline → holdsAll rest → holdsAll (outline :: rest)) :
    (∀ outline, holds outline) ∧ ∀ outlines, holdsAll outlines := by
  have leaf (outline : Outline) (childless : outline.children = []) : holds outline :=
    node outline (childless ▸ nil)
  have each (outline : Outline) : holds outline :=
    @Outline.rec holds holdsAll
      (fun children => node (.document children))
      (fun data children => node (.element data children))
      (fun content => leaf (.text content) rfl)
      (fun content => leaf (.comment content) rfl)
      nil (fun outline rest => cons outline rest) outline
  refine ⟨each, fun outlines => ?_⟩
  induction outlines with
  | nil => exact nil
  | cons outline rest others => exact cons outline rest (each outline) others

/-- Behind each outline of the listing stand the outlines of the nodes below it. -/
theorem preorder_prefix_drop :
    (∀ (outline : Outline) (place : Nat) (inner : Outline),
      outline.preorder[place]? = some inner →
        inner.preorder <+: outline.preorder.drop place) ∧
    ∀ (outlines : List Outline) (place : Nat) (inner : Outline),
      (preorderAll outlines)[place]? = some inner →
        inner.preorder <+: (preorderAll outlines).drop place := by
  apply forall_of_children
  case node =>
    intro outline below place inner found
    rw [preorder_eq outline] at found ⊢
    cases place with
    | zero =>
        cases found
        rw [preorder_eq]
        exact List.prefix_rfl
    | succ place => exact below place inner found
  case nil =>
    intro place inner found
    cases found
  case cons =>
    intro outline rest first others place inner found
    rw [preorderAll] at found ⊢
    rw [List.drop_append]
    rcases Nat.lt_or_ge place outline.preorder.length with inside | behind
    · rw [List.getElem?_append_left inside] at found
      exact (first place inner found).trans (List.prefix_append _ _)
    · rw [List.getElem?_append_right behind] at found
      rw [List.drop_of_length_le behind]
      exact others _ inner found

/-- The places of outlines that stand one after the other from a place on, each
followed by the nodes below it. -/
def places (first : NodeId) : List Outline → List NodeId
  | [] => []
  | outline :: rest => first :: places (first + outline.preorder.length) rest

theorem places_append (first : NodeId) (front back : List Outline) :
    places first (front ++ back) =
      places first front ++ places (first + (preorderAll front).length) back := by
  induction front generalizing first with
  | nil => simp [places, preorderAll]
  | cons outline rest induction =>
      simp [places, preorderAll, induction, Nat.add_assoc]

end Outline

namespace Tree

open Outline

variable {tree : Tree} {first : NodeId}

/-- From the first place on, a tree has the topmost nodes of the listed outlines, and
the children of each stand behind it. -/
def Lists (tree : Tree) (first : NodeId) (listing : List Outline) : Prop :=
  ∀ place outline, listing[place]? = some outline →
    tree.data? (first + place) = some outline.data ∧
      tree.children (first + place) = places (first + place + 1) outline.children

/-- A node is put together from what it is and from the outlines of its children. -/
theorem outlineWithin_succ {outline : Outline} {levels : Nat}
    (known : tree.data? first = some outline.data)
    (below : (tree.children first).filterMap (tree.outlineWithin levels) =
      outline.children) :
    tree.outlineWithin (levels + 1) first = some outline := by
  obtain ⟨node, found, isNode⟩ := Option.map_eq_some_iff.mp known
  rw [children, found] at below
  have below : node.children.filterMap (tree.outlineWithin levels) =
    outline.children := below
  rw [outlineWithin, found, Option.map_some, isNode, below]
  cases outline <;> rfl

namespace Lists

theorem of_prefix_drop {listing part : List Outline} {place : Nat}
    (lists : tree.Lists first listing) (within : part <+: listing.drop place) :
    tree.Lists (first + place) part := by
  intro further outline found
  obtain ⟨behind, whole⟩ := within
  obtain ⟨inside, -⟩ := List.getElem?_eq_some_iff.mp found
  rw [Nat.add_assoc]
  refine lists (place + further) outline ?_
  rwa [← List.getElem?_drop, ← whole, List.getElem?_append_left inside]

theorem cons_iff {outline : Outline} {listing : List Outline} :
    tree.Lists first (outline :: listing) ↔
      (tree.data? first = some outline.data ∧
        tree.children first = places (first + 1) outline.children) ∧
      tree.Lists (first + 1) listing := by
  constructor
  · intro lists
    have behind : tree.Lists (first + 1) listing :=
      lists.of_prefix_drop (List.prefix_refl ((outline :: listing).drop 1))
    exact ⟨lists 0 outline rfl, behind⟩
  · rintro ⟨here, behind⟩ place other found
    cases place with
    | zero =>
        cases found
        exact here
    | succ place =>
        have there := behind place other found
        rwa [Nat.add_right_comm first 1 place] at there

theorem append_iff {front back : List Outline} :
    tree.Lists first (front ++ back) ↔
      tree.Lists first front ∧ tree.Lists (first + front.length) back := by
  induction front generalizing first with
  | nil => simp [Lists]
  | cons outline rest induction =>
      rw [List.cons_append, cons_iff, cons_iff, induction, List.length_cons,
        Nat.add_right_comm first 1, Nat.add_assoc]
      exact and_assoc.symm

/-- The outline is read off again from the place of its topmost node. -/
theorem outlineWithin_eq :
    (∀ (outline : Outline) (levels : Nat) (first : NodeId),
      tree.Lists first outline.preorder → outline.preorder.length ≤ levels →
        tree.outlineWithin levels first = some outline) ∧
    ∀ (outlines : List Outline) (levels : Nat) (first : NodeId),
      tree.Lists first (preorderAll outlines) →
        (preorderAll outlines).length ≤ levels →
          (places first outlines).filterMap (tree.outlineWithin levels) =
            outlines := by
  apply forall_of_children
  case node =>
    intro outline below levels first lists enough
    rw [preorder_eq] at lists enough
    obtain ⟨⟨known, linked⟩, behind⟩ := cons_iff.mp lists
    cases levels with
    | zero => cases enough
    | succ levels =>
        refine outlineWithin_succ known ?_
        rw [linked]
        exact below levels (first + 1) behind (Nat.le_of_succ_le_succ enough)
  case nil =>
    intro levels first _ _
    rfl
  case cons =>
    intro outline rest here others levels first lists enough
    rw [preorderAll, List.length_append] at enough
    obtain ⟨front, back⟩ := append_iff.mp lists
    have read := here levels first front (Nat.le_of_add_right_le enough)
    have further := others levels _ back (Nat.le_of_add_left_le enough)
    rw [places, List.filterMap_cons_some read, further]

/-- In document order, the places go upwards one by one. -/
theorem preorder_range' :
    (∀ (outline : Outline) (first : NodeId),
      tree.Lists first outline.preorder →
        tree.forest.Preorder [first]
          (List.range' first outline.preorder.length)) ∧
    ∀ (outlines : List Outline) (first : NodeId),
      tree.Lists first (preorderAll outlines) →
        tree.forest.Preorder (places first outlines)
          (List.range' first (preorderAll outlines).length) := by
  apply forall_of_children
  case node =>
    intro outline below first lists
    rw [preorder_eq] at lists ⊢
    obtain ⟨⟨-, linked⟩, behind⟩ := cons_iff.mp lists
    have inner : tree.forest.Preorder (tree.forest.children first)
        (List.range' (first + 1) (preorderAll outline.children).length) := by
      have linked : tree.forest.children first =
        places (first + 1) outline.children := linked
      rw [linked]
      exact below (first + 1) behind
    have listed := inner.cons .nil
    rwa [List.append_nil, ← List.range'_succ] at listed
  case nil =>
    intro first _
    exact .nil
  case cons =>
    intro outline rest here others first lists
    obtain ⟨front, back⟩ := append_iff.mp lists
    have listed := (here first front).append (others _ back)
    rwa [List.singleton_append, List.range'_append_1, ← List.length_append] at listed

end Lists

end Tree

end TreeSelectors
