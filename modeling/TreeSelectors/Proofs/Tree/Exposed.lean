import Mathlib.Data.Multiset.Defs
import TreeSelectors.Proofs.Bindings
import TreeSelectors.Proofs.Matching.Questions
import TreeSelectors.Proofs.Tree.Loading
import TreeSelectors.Proofs.Tree.View

/-!
# Trees behind five questions

A tree answers some questions from its own links and tables.  Whoever exposes the same
tree through the five questions that no tree can do without, and leaves the rest to
what these determine, gives the same answers, and so the same matches.
-/

namespace TreeSelectors

/-- The answers of a tree itself; only the attributes of an element may come in another
order. -/
structure TreeQueries.Expose (queries : TreeQueries NodeId) (tree : Tree) : Prop where
  tagName : queries.tagName = tree.queries.tagName
  attributes (id : NodeId) :
    (queries.attributes id).map Multiset.ofList =
      (tree.queries.attributes id).map Multiset.ofList
  parent : queries.parent = tree.queries.parent
  children : queries.children = tree.queries.children
  text : queries.text = tree.queries.text
  longestPath : queries.longestPath = tree.queries.longestPath

private theorem Attributes.names_nodup (attributes : Attributes) :
    (attributes.entries.map Prod.fst).Nodup := by
  rw [List.Nodup, List.pairwise_map]
  refine attributes.increasing.imp fun {left right} before same => ?_
  exact String.lt_irrefl right.1 (same ▸ before)

namespace Tree

variable {tree : Tree} {queries : TreeQueries NodeId}

private theorem queries_attributes_nodup {id : NodeId} {entries : List (String × String)}
    (answered : tree.queries.attributes id = .ok entries) :
    (entries.map Prod.fst).Nodup := by
  simp only [Tree.queries, bind_eq_ok] at answered
  obtain ⟨⟨data, _⟩, -, answered⟩ := answered
  cases data with
  | element element =>
      cases answered
      exact element.attributes.names_nodup
  | document | text | comment =>
      cases answered
      exact List.nodup_nil

/-- The order of the attributes does not show in the value of one of them. -/
theorem exposed_attributeValue (exposed : queries.Expose tree) :
    queries.attributeValue = tree.queries.attributeValue := by
  funext id name
  have same := exposed.attributes id
  rw [TreeQueries.attributeValue, TreeQueries.attributeValue]
  cases own : tree.queries.attributes id with
  | error failure =>
      rw [own] at same
      cases answered : queries.attributes id with
      | error other =>
          rw [answered] at same
          cases same
          rfl
      | ok listed =>
          rw [answered] at same
          cases same
  | ok entries =>
      rw [own] at same
      cases answered : queries.attributes id with
      | error other =>
          rw [answered] at same
          cases same
      | ok listed =>
          rw [answered] at same
          have permuted : entries.Perm listed :=
            (Multiset.coe_eq_coe.mp (Except.ok.inj same)).symm
          have values :=
            lookup_eq_of_perm (queries_attributes_nodup own) permuted name
          exact congrArg Except.ok values.symm

/-- What a tree tells of an attribute is what its list of attributes says. -/
theorem view_attributeValue_eq (tree : Tree) :
    tree.view.attributeValue = tree.queries.attributeValue := by
  funext id name
  simp only [view, TreeQueries.attributeValue, Tree.queries, lookup]
  cases tree.get? id with
  | none => rfl
  | some node =>
      obtain ⟨data, _⟩ := node
      cases data with
      | document | element | text | comment => rfl

theorem view_id_eq (tree : Tree) (id : NodeId) :
    tree.view.id id = tree.queries.attributeValue id "id" := by
  rw [← view_attributeValue_eq]
  simp only [view, lookup, element?]
  cases tree.get? id with
  | none => rfl
  | some node =>
      obtain ⟨data, _⟩ := node
      cases data with
      | document | element | text | comment => rfl

theorem view_hasClass_eq (tree : Tree) :
    tree.view.hasClass = tree.queries.hasClass := by
  funext id name
  rw [TreeQueries.hasClass, ← view_attributeValue_eq]
  simp only [view, lookup, element?]
  cases tree.get? id with
  | none => rfl
  | some node =>
      obtain ⟨data, _⟩ := node
      cases data with
      | document | element | text | comment => rfl

namespace Linked

/-- The parent of a node of a linked tree has it among its children, so that asking for
its siblings never fails. -/
theorem siblings_queries (linked : tree.Linked) (describe : NodeId → String)
    (id : NodeId) :
    tree.queries.siblings describe id = (do
      let _ ← tree.lookup id
      return match tree.parent? id with
        | none => []
        | some parent => tree.children parent) := by
  simp only [TreeQueries.siblings, Tree.queries, lookup]
  cases found : tree.get? id with
  | none => rfl
  | some node =>
      have own : tree.parent? id = node.parent := by rw [parent?, found, Option.bind_some]
      rw [own]
      obtain ⟨_, parent, _⟩ := node
      cases parent with
      | none => rfl
      | some parent =>
          obtain ⟨above, known⟩ :=
            Option.isSome_iff_exists.mp (isSome_get?_iff.mpr (linked.parent_lt own))
          have among : id ∈ above.children := by
            have member := linked.mem_children_iff.mpr own
            rwa [Tree.children, known] at member
          have listed : tree.children parent = above.children := by
            rw [Tree.children, known, Option.map_some, Option.getD_some]
          simp only [bind, Except.bind, pure, Except.pure, known, listed, if_pos among]

theorem previousSiblings_eq (linked : tree.Linked) (describe : NodeId → String) :
    tree.view.previousSiblings = tree.queries.previousSiblings describe := by
  funext id
  simp only [view, TreeQueries.previousSiblings, linked.siblings_queries,
    linked.precedingSiblings_eq, Forest.before, forest]
  cases tree.lookup id with
  | error failure => rfl
  | ok node =>
      cases tree.parent? id with
      | none => rfl
      | some parent => rfl

theorem nextSiblings_eq (linked : tree.Linked) (describe : NodeId → String) :
    tree.view.nextSiblings = tree.queries.nextSiblings describe := by
  funext id
  simp only [view, TreeQueries.nextSiblings, linked.siblings_queries,
    linked.followingSiblings_eq, Forest.after, forest]
  cases tree.lookup id with
  | error failure => rfl
  | ok node =>
      cases tree.parent? id with
      | none => rfl
      | some parent => rfl

/-- A linked tree answers like any other view of it. -/
theorem alike (linked : tree.Linked) (exposed : queries.Expose tree)
    (describe : NodeId → String) :
    tree.view.Alike (.ofQueries queries describe) where
  tagName := exposed.tagName.symm
  parent := exposed.parent.symm
  children := exposed.children.symm
  text := exposed.text.symm
  longestPath := exposed.longestPath.symm
  attributeValue :=
    (view_attributeValue_eq tree).trans (exposed_attributeValue exposed).symm
  id := by
    funext id
    rw [view_id_eq, ← exposed_attributeValue exposed]
    rfl
  hasClass := by
    funext id name
    rw [view_hasClass_eq, TreeQueries.hasClass, ← exposed_attributeValue exposed]
    rfl
  previousSiblings := by
    rw [linked.previousSiblings_eq describe]
    funext id
    simp only [TreeView.ofQueries, TreeQueries.previousSiblings, TreeQueries.siblings,
      exposed.parent, exposed.children]
  nextSiblings := by
    rw [linked.nextSiblings_eq describe]
    funext id
    simp only [TreeView.ofQueries, TreeQueries.nextSiblings, TreeQueries.siblings,
      exposed.parent, exposed.children]

end Linked

/-- A tree that was loaded or is new, and has grown by calls since, answers each
question about any place as the five questions determine it, failures included; and a
compiled selector has the same results on it as on whatever exposes the tree through
these questions only. -/
theorem Grows.answers_eq {start tree : Tree}
    (made : start = .empty ∨ ∃ text, load text = .ok start) (grows : start.Grows tree)
    {queries : TreeQueries NodeId} (exposed : queries.Expose tree)
    (describe : NodeId → String) :
    (∀ id name, tree.view.attributeValue id name = queries.attributeValue id name) ∧
      (∀ id, tree.view.id id = queries.attributeValue id "id") ∧
      (∀ id name, tree.view.hasClass id name = queries.hasClass id name) ∧
      (∀ id, tree.view.previousSiblings id = queries.previousSiblings describe id) ∧
      (∀ id, tree.view.nextSiblings id = queries.nextSiblings describe id) ∧
      ∀ compiled : CompiledSelector,
        (∀ id, compiled.accepts tree.view id =
          compiled.accepts (.ofQueries queries describe) id) ∧
        ∀ root, compiled.select tree.view root =
          compiled.select (.ofQueries queries describe) root := by
  have linkedStart : start.Linked := by
    rcases made with rfl | ⟨text, loaded⟩
    · exact .empty
    · exact (rooted_of_load loaded).linked
  have alike := (linkedStart.grows grows).alike exposed describe
  refine ⟨?_, ?_, ?_, ?_, ?_, fun compiled => ⟨fun id => ?_, fun root => ?_⟩⟩
  · exact fun id name => congrFun (congrFun alike.attributeValue id) name
  · exact fun id => congrFun alike.id id
  · exact fun id name => congrFun (congrFun alike.hasClass id) name
  · exact fun id => congrFun alike.previousSiblings id
  · exact fun id => congrFun alike.nextSiblings id
  · rw [CompiledSelector.accepts, CompiledSelector.accepts, alike.accepts]
  · rw [CompiledSelector.select, CompiledSelector.select, alike.select]

/-- The five answers of a tree, with the attributes of each element in reverse order. -/
def reversedQueries (tree : Tree) : TreeQueries NodeId :=
  { tree.queries with
    attributes := fun id => (tree.queries.attributes id).map List.reverse }

theorem reversedQueries_expose (tree : Tree) : tree.reversedQueries.Expose tree where
  tagName := rfl
  attributes id := by
    simp only [reversedQueries]
    cases tree.queries.attributes id with
    | error failure => rfl
    | ok entries =>
        exact congrArg Except.ok (Multiset.coe_eq_coe.mpr (List.reverse_perm entries))
  parent := rfl
  children := rfl
  text := rfl
  longestPath := rfl

/-- The notation of a heading with two attributes and something bold in it. -/
def headingText : String :=
  "[\"element\",\"h1\",\x7b\"id\":\"top\",\"lang\":\"en\"\x7d,[[\"element\",\"b\"]]]"

/-- The attributes of the heading. -/
def headingAttributes : Attributes :=
  ⟨[("id", "top"), ("lang", "en")], by decide⟩

/-- A heading with two attributes and something bold in it. -/
def heading : Tree :=
  ⟨#[⟨.document, none, [1], none, none⟩,
    ⟨.element ⟨"h1", headingAttributes⟩, some 0, [2], none, none⟩,
    ⟨.element ⟨"b", .empty⟩, some 1, [], none, none⟩]⟩

/-- The heading, with something in italics after what is bold. -/
def longHeading : Tree :=
  ⟨#[⟨.document, none, [1], none, none⟩,
    ⟨.element ⟨"h1", headingAttributes⟩, some 0, [2, 3], none, none⟩,
    ⟨.element ⟨"b", .empty⟩, some 1, [], some 3, none⟩,
    ⟨.element ⟨"i", .empty⟩, some 1, [], none, some 2⟩]⟩

/-- `b + i`. -/
def italicsAfterBold : CompiledSelector where
  source := "b + i"
  selector := [⟨[.type "i"], [(.nextSibling, [.type "b"])], none⟩]
  maxDepth := 2

theorem load_heading : load headingText = .ok heading := by
  decide +kernel

theorem Grows.answers_eq_longHeading :
    load headingText = .ok heading ∧ heading.Grows longHeading ∧
      longHeading.reversedQueries.Expose longHeading ∧
      longHeading.reversedQueries.attributes 1 ≠ longHeading.queries.attributes 1 ∧
      longHeading.view.id 1 = longHeading.reversedQueries.attributeValue 1 "id" ∧
      longHeading.view.previousSiblings 3 =
        longHeading.reversedQueries.previousSiblings toString 3 ∧
      italicsAfterBold.accepts (.ofQueries longHeading.reversedQueries toString) 3 =
        .ok true := by
  have loaded := load_heading
  have grows : heading.Grows longHeading :=
    .call (.appendElement 1 "i" .empty) .start
      ((rooted_of_load loaded).linked.free_alloc (by decide)) rfl
  have exposed := reversedQueries_expose longHeading
  obtain ⟨-, ids, -, previous, -, results⟩ :=
    answers_eq (Or.inr ⟨_, loaded⟩) grows exposed toString
  have accepted : italicsAfterBold.accepts longHeading.view 3 = .ok true := by
    decide +kernel
  exact ⟨loaded, grows, exposed, by decide, ids 1, previous 3,
    ((results italicsAfterBold).1 3).symm.trans accepted⟩

end Tree

end TreeSelectors
