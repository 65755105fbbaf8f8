import TreeSelectors.Proofs.Selector.Parsing
import TreeSelectors.Proofs.Selector.Written

/-!
# Canonical text is read back

Compounds, chains and lists are written so that their pieces stay apart, and so
the canonical text of a well-formed selector derives the selector.  No alias is
looked up on the way.
-/

namespace TreeSelectors

namespace Grammar

open Token

variable {σ : Type} {aliases : AliasSource σ} {known later : σ} {rest : List Char}

/-! ## Borders -/

private theorem endsBlank_cons {char : Char} (notBlank : Text.isBlank char = false) :
    EndsBlank (char :: rest) := by
  intro next member
  cases member
  exact notBlank

theorem endsIdent_write {simple : Simple} (following : simple.isLeading = false) :
    EndsIdent (simple.write ++ rest) := by
  cases simple with
  | type | universal => cases following
  | _ => exact endsIdent_cons rfl (by decide) (by decide)

theorem endsIdent_writeConditions {conditions : List Simple}
    (formed : Compound.FormedMore conditions)
    (ends : conditions = [] → EndsIdent rest) :
    EndsIdent (Compound.writeConditions conditions ++ rest) := by
  cases conditions with
  | nil => exact ends rfl
  | cons simple more =>
      rw [Compound.writeConditions, List.append_assoc]
      exact endsIdent_write formed.1

theorem endsBlank_write {simple : Simple} (named : ∀ name ∈ simple.names, name ≠ "") :
    EndsBlank (simple.write ++ rest) := by
  cases simple with
  | type name =>
      have nonempty := named name (by simp [Simple.names])
      obtain ⟨char, others, written, starts⟩ :=
        Text.exists_writeName_cons (mt String.toList_eq_nil_iff.mp nonempty)
      rw [Simple.write, written]
      exact endsBlank_cons (isBlank_of_startsName starts).1
  | _ => exact endsBlank_cons rfl

theorem endsBlank_writeCompound {compound : Compound}
    (formed : Compound.Formed compound)
    (named : ∀ name ∈ Compound.names compound, name ≠ "") :
    EndsBlank (Compound.write compound ++ rest) := by
  cases compound with
  | nil => exact formed.elim
  | cons simple more =>
      rw [Compound.write, List.append_assoc]
      apply endsBlank_write
      intro name member
      exact named name (by rw [Compound.names]; exact List.mem_append_left _ member)

theorem endsBlank_writeLinks {left : List (Combinator × Compound)} {subject : Compound}
    (formed : Compound.Formed subject)
    (named : ∀ name ∈ Compound.names subject, name ≠ "")
    (formedLeft : Chain.FormedLeft left)
    (namedLeft : ∀ name ∈ Chain.namesLeft left, name ≠ "") :
    EndsBlank (Chain.writeLeft left ++ Compound.write subject ++ rest) := by
  -- The leftmost compound is written first, so the last link is peeled off.
  induction left generalizing subject rest with
  | nil => exact endsBlank_writeCompound formed named
  | cons link more induction =>
      obtain ⟨combinator, compound⟩ := link
      rw [Chain.namesLeft] at namedLeft
      obtain ⟨namedHead, namedMore⟩ := List.forall_mem_append.mp namedLeft
      simpa [Chain.writeLeft] using
        @induction (combinator.write ++ Compound.write subject ++ rest) compound
          formedLeft.1 namedHead formedLeft.2 namedMore

theorem endsBlank_writeChain {chain : Chain} {relative : Bool}
    (formed : chain.Formed relative) (named : ∀ name ∈ chain.names, name ≠ "") :
    EndsBlank (chain.write ++ rest) := by
  obtain ⟨subject, left, anchor⟩ := chain
  obtain ⟨formed, formedLeft, -⟩ := formed
  obtain ⟨named, namedLeft⟩ := List.forall_mem_append.mp named
  have linked := @endsBlank_writeLinks rest left subject formed named formedLeft namedLeft
  cases anchor with
  | none => simpa [Chain.write, Chain.writeAnchor] using linked
  | some combinator =>
      cases combinator with
      | descendant => simpa [Chain.write, Chain.writeAnchor] using linked
      | _ => exact endsBlank_cons rfl

theorem endsBlank_writeList {chains : List Chain} {relative : Bool}
    (nonempty : chains ≠ []) (formed : Selector.Formed relative chains)
    (named : ∀ name ∈ Selector.names chains, name ≠ "") :
    EndsBlank (Selector.write chains ++ rest) := by
  obtain ⟨chain, more, rfl⟩ := List.exists_cons_of_ne_nil nonempty
  obtain ⟨named, -⟩ := List.forall_mem_append.mp named
  rw [Selector.write, List.append_assoc]
  exact endsBlank_writeChain formed.1 named

/-! ## Combinators -/

private theorem sign_of_ne_descendant {combinator : Combinator} {token : Token}
    (signed : combinator ≠ .descendant)
    (kind : token.kind = .delim combinator.sign) : Sign token combinator := by
  cases combinator with
  | descendant => exact absurd rfl signed
  | child => exact .child kind
  | nextSibling => exact .nextSibling kind
  | laterSibling => exact .laterSibling kind

private theorem scans_sign {combinator : Combinator} (signed : combinator ≠ .descendant) :
    Scans [combinator.sign] rest 0 fun _ tokens =>
      ∃ token, tokens = [token] ∧ Sign token combinator := by
  have sign : isSign combinator.sign = true := by
    cases combinator with
    | descendant => exact absurd rfl signed
    | _ => rfl
  exact .token (.sign sign)
    (fun _ => ((sign_of_ne_descendant signed rfl).flat _ List.mem_cons_self).1)
    fun _ _ => ⟨_, rfl, sign_of_ne_descendant signed rfl⟩

theorem scans_separator {combinator : Combinator} (ends : EndsBlank rest) :
    Scans combinator.write rest 0 fun _ tokens => Separator tokens combinator := by
  by_cases signed : combinator = .descendant
  · subst signed
    apply (scans_space ends).mono
    intro levels tokens _ derives
    obtain ⟨nonempty, isBlank⟩ := derives
    exact .descendant isBlank nonempty
  · have text : combinator.write = [' '] ++ ([combinator.sign] ++ [' ']) := by
      cases combinator with
      | descendant => exact absurd rfl signed
      | _ => rfl
    have stops : EndsBlank ([combinator.sign] ++ [' '] ++ rest) := by
      cases combinator with
      | descendant => exact absurd rfl signed
      | _ => exact endsBlank_cons rfl
    rw [text]
    apply ((scans_space stops).seq ((scans_sign signed).seq (scans_space ends))).mono
    intro levels _ _ derives
    obtain ⟨first, _, rfl, ⟨-, firstBlank⟩, _, second, rfl, ⟨token, rfl, sign⟩, -,
      secondBlank⟩ := derives
    exact .signed firstBlank sign secondBlank

theorem scans_anchor {relative : Bool} {anchor : Option Combinator}
    (anchored : anchor.isSome = relative) (ends : EndsBlank rest) :
    Scans (Chain.writeAnchor anchor) rest 0 fun _ tokens =>
      Anchor relative tokens anchor := by
  subst anchored
  cases anchor with
  | none => exact .nil fun _ => .none
  | some combinator =>
      by_cases signed : combinator = .descendant
      · subst signed
        exact .nil fun _ => .implied
      · have text : Chain.writeAnchor (some combinator) =
            [combinator.sign] ++ [' '] := by
          cases combinator with
          | descendant => exact absurd rfl signed
          | _ => rfl
        rw [text]
        apply ((scans_sign signed).seq (scans_space ends)).mono
        intro levels _ _ derives
        obtain ⟨_, blank, rfl, ⟨token, rfl, sign⟩, -, isBlank⟩ := derives
        exact .signed sign isBlank

/-! ## Chains -/

/-- A further link at the right end. -/
theorem Links.snoc {setting : Setting σ} {between : σ}
    {subject final next : Compound} {left leftmost : List (Combinator × Compound)}
    {segment separator tokens : List Token} {combinator : Combinator}
    (derived : Links setting known subject left segment final leftmost between)
    (separates : Separator separator combinator)
    (compound : CompoundOf setting between tokens next later) :
    Links setting known subject left (segment ++ (separator ++ tokens)) next
      ((combinator, final) :: leftmost) later := by
  induction derived with
  | nil =>
      rw [List.nil_append, ← List.append_nil (separator ++ tokens)]
      exact .cons separates compound .nil
  | cons first head _ induction =>
      rw [List.append_assoc]
      exact .cons first head (induction compound)

/-- The text of a compound derives it, in front of whatever ends a name. -/
def CompoundScans (aliases : AliasSource σ) (known : σ) (compound : Compound) :
    Prop :=
  ∀ {rest : List Char}, EndsIdent rest →
    Scans (Compound.write compound) rest (Compound.nesting compound)
      fun levels tokens =>
        CompoundOf (.upTo aliases levels) known tokens compound known

theorem scans_links {left : List (Combinator × Compound)} {subject : Compound}
    (compounds : ∀ link ∈ left, CompoundScans aliases known link.2)
    (last : CompoundScans aliases known subject)
    (formed : Compound.Formed subject)
    (named : ∀ name ∈ Compound.names subject, IsName name)
    (formedLeft : Chain.FormedLeft left)
    (namedLeft : ∀ name ∈ Chain.namesLeft left, IsName name)
    (ends : EndsIdent rest) :
    Scans (Chain.writeLeft left ++ Compound.write subject) rest
      (max (Chain.nestingLeft left) (Compound.nesting subject))
      fun levels tokens => ∃ first start links, tokens = start ++ links ∧
        CompoundOf (.upTo aliases levels) known start first known ∧
        Links (.upTo aliases levels) known first [] links subject left known := by
  induction left generalizing subject rest with
  | nil =>
      simp only [Chain.writeLeft, Chain.nestingLeft, List.nil_append, Nat.zero_max]
      apply (last ends).mono
      intro levels tokens _ derived
      exact ⟨subject, tokens, [], by simp, derived, .nil⟩
  | cons link more induction =>
      obtain ⟨combinator, compound⟩ := link
      obtain ⟨formedHead, formedMore⟩ := formedLeft
      obtain ⟨head, compounds⟩ := List.forall_mem_cons.mp compounds
      rw [Chain.namesLeft] at namedLeft
      obtain ⟨namedHead, namedMore⟩ := List.forall_mem_append.mp namedLeft
      have spaced := @endsBlank_writeCompound rest subject formed fun name member =>
        (named name member).1
      have stops : EndsIdent (combinator.write ++ Compound.write subject ++ rest) := by
        cases combinator with
        | _ => exact endsIdent_cons rfl (by decide) (by decide)
      have scans :=
        induction compounds head formedHead namedHead formedMore namedMore stops
      have text : Chain.writeLeft ((combinator, compound) :: more) ++
          Compound.write subject =
          (Chain.writeLeft more ++ Compound.write compound) ++
            (combinator.write ++ Compound.write subject) := by
        simp [Chain.writeLeft]
      rw [text]
      have link := (@scans_separator _ combinator spaced).seq (last ends)
      have whole := scans.seq link
      rw [Nat.zero_max] at whole
      apply whole.mono
      intro levels _ _ derives
      obtain ⟨_, _, rfl, ⟨first, start, links, rfl, derived, linked⟩, separator,
        tokens, rfl, separates, next⟩ := derives
      exact ⟨first, start, links ++ (separator ++ tokens), by simp, derived,
        linked.snoc separates next⟩

theorem scans_chain {chain : Chain} {relative : Bool}
    (compounds : ∀ link ∈ chain.left, CompoundScans aliases known link.2)
    (last : CompoundScans aliases known chain.subject)
    (formed : chain.Formed relative) (named : ∀ name ∈ chain.names, IsName name)
    (ends : EndsIdent rest) :
    Scans chain.write rest chain.nesting fun levels tokens =>
      ChainOf (.upTo aliases levels) relative known tokens chain known := by
  obtain ⟨subject, left, anchor⟩ := chain
  obtain ⟨formed, formedLeft, anchored⟩ := formed
  obtain ⟨named, namedLeft⟩ := List.forall_mem_append.mp named
  have scans := scans_links compounds last formed named formedLeft namedLeft ends
  have blank := @endsBlank_writeLinks rest left subject formed
    (fun name member => (named name member).1) formedLeft
    fun name member => (namedLeft name member).1
  have start := scans_anchor anchored blank
  have text : Chain.write ⟨subject, left, anchor⟩ = Chain.writeAnchor anchor ++
      (Chain.writeLeft left ++ Compound.write subject) := by
    simp [Chain.write]
  rw [text]
  have whole := start.seq scans
  rw [Nat.zero_max] at whole
  apply whole.mono
  intro levels _ _ derives
  obtain ⟨sign, _, rfl, anchored, first, tokens, links, rfl, derived, linked⟩ := derives
  rw [← List.append_assoc]
  exact .links anchored derived linked

/-! ## Selectors -/

theorem scans_leading {simple : Simple} (leads : simple.isLeading = true)
    (named : ∀ name ∈ simple.names, IsName name) (ends : EndsIdent rest) :
    Scans simple.write rest simple.nesting fun levels tokens =>
      First (.upTo aliases levels) known tokens simple known := by
  cases simple with
  | type name =>
      have isName := named name (by simp [Simple.names])
      apply (scans_name isName ends).mono
      intro levels _ _ derives
      obtain ⟨token, rfl, kind, plain⟩ := derives
      exact .type kind plain
  | universal =>
      exact .token (.sign rfl) (fun _ => rfl) fun _ _ => .universal rfl
  | _ => cases leads

mutual

theorem scans_condition (simple : Simple) {rest : List Char}
    (following : simple.isLeading = false) (formed : simple.Formed)
    (named : ∀ name ∈ simple.names, IsName name) (ends : EndsIdent rest) :
    Scans simple.write rest simple.nesting fun levels tokens =>
      Condition (.upTo aliases levels) known tokens simple known := by
  cases simple with
  | type | universal => cases following
  | id name => exact scans_id (named name (by simp [Simple.names])) ends
  | className name => exact scans_className (named name (by simp [Simple.names])) ends
  | «attribute» test =>
      exact scans_attributeCondition formed (named test.name (by simp [Simple.names]))
  | plain => exact scans_plain ends
  | nth => exact scans_nth
  | pseudoElement name =>
      exact scans_pseudoElement (named name (by simp [Simple.names])) formed ends
  | functional function argument =>
      have stops : EndsIdent (')' :: rest) := endsIdent_cons rfl (by decide) (by decide)
      exact scans_functional (scans_list argument formed.1 formed.2 named stops)
termination_by structural simple

theorem scans_conditions (conditions : List Simple) {rest : List Char}
    (formed : Compound.FormedMore conditions)
    (named : ∀ name ∈ Compound.names conditions, IsName name)
    (ends : EndsIdent rest) :
    Scans (Compound.writeConditions conditions) rest (Compound.nesting conditions)
      fun levels tokens =>
        Conditions (.upTo aliases levels) known tokens conditions known := by
  cases conditions with
  | nil => exact .nil fun _ => .nil
  | cons simple more =>
      obtain ⟨following, formedHead, formedMore⟩ := formed
      obtain ⟨namedHead, namedMore⟩ := List.forall_mem_append.mp named
      have head := scans_condition simple following formedHead namedHead
        (endsIdent_writeConditions formedMore fun _ => ends)
      apply (head.seq (scans_conditions more formedMore namedMore ends)).mono
      intro levels _ _ derives
      obtain ⟨first, others, rfl, derived, following⟩ := derives
      exact .cons derived following
termination_by structural conditions

theorem scans_compound (compound : List Simple) (formed : Compound.Formed compound)
    (named : ∀ name ∈ Compound.names compound, IsName name) :
    CompoundScans aliases known compound := by
  intro rest ends
  cases compound with
  | nil => exact formed.elim
  | cons simple more =>
      obtain ⟨formedHead, formedMore⟩ := formed
      obtain ⟨namedHead, namedMore⟩ := List.forall_mem_append.mp named
      have stops := endsIdent_writeConditions formedMore fun _ => ends
      have head : Scans simple.write (Compound.writeConditions more ++ rest)
          simple.nesting fun levels tokens =>
            First (.upTo aliases levels) known tokens simple known := by
        cases leads : simple.isLeading with
        | true => exact scans_leading leads namedHead stops
        | false =>
            apply (scans_condition simple leads formedHead namedHead stops).mono
            intro levels tokens _ derived
            exact .condition derived
      apply (head.seq (scans_conditions more formedMore namedMore ends)).mono
      intro levels _ _ derives
      obtain ⟨first, others, rfl, derived, following⟩ := derives
      exact .conditions derived following
termination_by structural compound

theorem scans_compounds (left : List (Combinator × List Simple))
    (formed : Chain.FormedLeft left)
    (named : ∀ name ∈ Chain.namesLeft left, IsName name) :
    ∀ link ∈ left, CompoundScans aliases known link.2 := by
  cases left with
  | nil => simp
  | cons link more =>
      obtain ⟨combinator, compound⟩ := link
      obtain ⟨namedHead, namedMore⟩ := List.forall_mem_append.mp named
      exact List.forall_mem_cons.mpr ⟨scans_compound compound formed.1 namedHead,
        scans_compounds more formed.2 namedMore⟩
termination_by structural left

theorem scans_member (chain : Chain) {relative : Bool} {rest : List Char}
    (formed : chain.Formed relative)
    (named : ∀ name ∈ chain.names, IsName name) (ends : EndsIdent rest) :
    Scans chain.write rest chain.nesting fun levels tokens =>
      ChainOf (.upTo aliases levels) relative known tokens chain known := by
  cases chain with
  | mk subject left anchor =>
      obtain ⟨namedSubject, namedLeft⟩ := List.forall_mem_append.mp named
      exact scans_chain (scans_compounds left formed.2.1 namedLeft)
        (scans_compound subject formed.1 namedSubject) formed named ends
termination_by structural chain

theorem scans_list (chains : List Chain) {relative : Bool} {rest : List Char}
    (nonempty : chains ≠ [])
    (formed : Selector.Formed relative chains)
    (named : ∀ name ∈ Selector.names chains, IsName name) (ends : EndsIdent rest) :
    Scans (Selector.write chains) rest (Selector.nesting chains)
      fun levels tokens =>
        ListOf (.upTo aliases levels) relative known tokens chains known := by
  cases chains with
  | nil => exact absurd rfl nonempty
  | cons chain more =>
      obtain ⟨formedHead, formedMore⟩ := formed
      obtain ⟨namedHead, namedMore⟩ := List.forall_mem_append.mp named
      cases more with
      | nil =>
          have scans := scans_member chain formedHead namedHead ends
          have text : Selector.write [chain] = chain.write := by
            simp [Selector.write, Selector.writeMore]
          rw [text, Selector.nesting, Selector.nesting, Nat.max_zero]
          refine scans.mono fun levels tokens _ derived => ?_
          have listed := ListOf.single blank_nil derived blank_nil
          simpa using listed
      | cons next others =>
          have following := scans_list (next :: others) (List.cons_ne_nil _ _)
            formedMore namedMore ends
          have spaced := @endsBlank_writeList rest (next :: others) relative
            (List.cons_ne_nil _ _) formedMore fun name member => (namedMore name member).1
          have stops : EndsIdent ([','] ++ ([' '] ++ Selector.write (next :: others)) ++
              rest) :=
            endsIdent_cons rfl (by decide) (by decide)
          have scans := scans_member chain formedHead namedHead stops
          have text : Selector.write (chain :: next :: others) =
              chain.write ++ ([','] ++ ([' '] ++ Selector.write (next :: others))) := by
            simp [Selector.write, Selector.writeMore]
          have comma := @scans_punctuation
            ([' '] ++ Selector.write (next :: others) ++ rest) ',' .comma rfl
              fun _ => rfl
          have whole := scans.seq (comma.seq ((scans_space spaced).seq following))
          rw [Nat.zero_max, Nat.zero_max] at whole
          rw [text]
          apply whole.mono
          intro levels _ _ derives
          obtain ⟨tokens, _, rfl, derived, _, _, rfl, ⟨comma, rfl, kind⟩, space,
            list, rfl, ⟨-, isBlank⟩, listed⟩ := derives
          have joined := ListOf.cons blank_nil derived blank_nil kind
            (listed.blank_append isBlank)
          simpa using joined
termination_by structural chains

end

end Grammar

end TreeSelectors
