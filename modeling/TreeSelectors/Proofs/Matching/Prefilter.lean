import TreeSelectors.Matching.Prefilter
import TreeSelectors.Proofs.Matching.Semantics

/-!
# Soundness of tag filters

An element that satisfies a selector has a tag that the filter lets through.
-/

namespace TreeSelectors

namespace Prefilter

private theorem mem_of_mapM {α β : Type} {f : α → Option β} {items : List α}
    {results : List β} (mapped : items.mapM f = some results) {item : α}
    (member : item ∈ items) : ∃ result ∈ results, f item = some result := by
  induction items generalizing results with
  | nil => cases member
  | cons first rest induction =>
      simp only [List.mapM_cons, Option.bind_eq_bind, Option.bind_eq_some_iff,
        Option.pure_def, Option.some.injEq] at mapped
      obtain ⟨head, headKnown, tail, tailKnown, rfl⟩ := mapped
      rcases List.mem_cons.mp member with rfl | member
      · exact ⟨head, List.mem_cons_self, headKnown⟩
      · obtain ⟨result, isResult, known⟩ := induction tailKnown member
        exact ⟨result, List.mem_cons_of_mem _ isResult, known⟩

/-- The filter lets a tag through that one of the subjects does not rule out. -/
theorem accepts_of_subject {selector : Selector} {chain : Chain} {tag : String}
    (member : chain ∈ selector)
    (agrees : ∀ name, Compound.typeName? chain.subject = some name →
      Text.foldCase tag = Text.foldCase name) :
    (ofSelector selector).accepts tag = true := by
  simp only [accepts, Option.all_eq_true, List.contains_iff_mem]
  intro tags known
  obtain ⟨folded, isTag, named⟩ := mem_of_mapM known member
  obtain ⟨name, first, rfl⟩ := Option.map_eq_some_iff.mp named
  rwa [agrees name first]

variable {ν : Type} [DecidableEq ν] {forest : Forest ν}

/-- The type that a compound names is that of every element that satisfies
it. -/
theorem foldCase_typeName {compound : Compound} {node : ν} {tag name : String}
    (own : forest.tag node = some tag)
    (holds : Compound.Holds forest compound node)
    (named : compound.typeName? = some name) :
    Text.foldCase tag = Text.foldCase name := by
  obtain ⟨simple, member, isType⟩ := List.exists_of_findSome?_eq_some named
  have simpleHolds := Compound.holds_iff.mp holds simple member
  cases simple with
  | type other =>
      cases isType
      obtain ⟨known, ownTag, same⟩ := by
        simpa only [Simple.Holds] using simpleHolds
      rw [own] at ownTag
      cases ownTag
      simpa [Text.sameFolded] using same
  | _ => cases isType

theorem accepts_of_holds {selector : Selector} {node : ν} {tag : String}
    (own : forest.tag node = some tag)
    (holds : Selector.Holds forest selector node) :
    (ofSelector selector).accepts tag = true := by
  obtain ⟨⟨subject, left, anchor⟩, member, chainHolds⟩ :=
    Selector.holds_iff.mp holds
  rw [Chain.Holds] at chainHolds
  exact accepts_of_subject member fun _ named =>
    foldCase_typeName own chainHolds.2.1 named

end Prefilter

end TreeSelectors
