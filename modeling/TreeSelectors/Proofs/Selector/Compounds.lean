import TreeSelectors.Proofs.Selector.Conditions

/-!
# Reading compounds

A compound goes on as long as conditions start, and ends in front of the first
token that starts none.
-/

namespace TreeSelectors

namespace Grammar

/-- Whether a condition other than a type starts with a token. -/
def startsCondition : TokenKind → Bool
  | .hash _ | .delim '.' | .leftBracket | .colon => true
  | _ => false

def startsCompound : TokenKind → Bool
  | .ident _ | .delim '*' => true
  | kind => startsCondition kind

/-- Whether a compound ends in front of some tokens. -/
def EndsCompound (rest : List Token) : Prop :=
  ∀ token ∈ rest.head?, startsCondition token.kind = false

theorem Condition.exists_cons {σ : Type} {setting : Setting σ} {known later : σ}
    {segment : List Token} {simple : Simple}
    (derived : Condition setting known segment simple later) :
    ∃ token more, segment = token :: more ∧ startsCondition token.kind = true := by
  cases derived with
  | id kind => exact ⟨_, _, rfl, by rw [kind]; rfl⟩
  | className kind => exact ⟨_, _, rfl, by rw [kind]; rfl⟩
  | «attribute» kind => exact ⟨_, _, rfl, by rw [kind]; rfl⟩
  | pseudo kind => exact ⟨_, _, rfl, by rw [kind]; rfl⟩

theorem startsCompound_of_startsCondition {kind : TokenKind}
    (starts : startsCondition kind = true) : startsCompound kind = true := by
  unfold startsCompound
  split
  · rfl
  · rfl
  · exact starts

theorem First.exists_cons {σ : Type} {setting : Setting σ} {known later : σ}
    {segment : List Token} {simple : Simple}
    (derived : First setting known segment simple later) :
    ∃ token more, segment = token :: more ∧ startsCompound token.kind = true := by
  cases derived with
  | type kind => exact ⟨_, _, rfl, by rw [kind]; rfl⟩
  | universal kind => exact ⟨_, _, rfl, by rw [kind]; rfl⟩
  | condition derived =>
      obtain ⟨token, more, split, starts⟩ := derived.exists_cons
      exact ⟨token, more, split, startsCompound_of_startsCondition starts⟩

theorem Attribute.ne_nil {segment : List Token} {test : AttributeTest}
    (derived : Attribute segment test) : segment ≠ [] := by
  cases derived <;> simp

theorem CompoundOf.exists_first {σ : Type} {setting : Setting σ} {known later : σ}
    {segment : List Token} {compound : Compound}
    (derived : CompoundOf setting known segment compound later) :
    ∃ first tail simple more between, segment = first ++ tail ∧
      compound = simple :: more ∧ First setting known first simple between ∧
      Conditions setting between tail more later := by
  cases derived with
  | conditions first rest => exact ⟨_, _, _, _, _, rfl, rfl, first, rest⟩

theorem CompoundOf.exists_cons {σ : Type} {setting : Setting σ} {known later : σ}
    {segment : List Token} {compound : Compound}
    (derived : CompoundOf setting known segment compound later) :
    ∃ token more, segment = token :: more ∧ startsCompound token.kind = true := by
  obtain ⟨first, tail, _, _, _, rfl, -, head, -⟩ := derived.exists_first
  obtain ⟨token, more, rfl, starts⟩ := head.exists_cons
  exact ⟨token, more ++ tail, rfl, starts⟩

theorem CompoundOf.ne_nil {σ : Type} {setting : Setting σ} {known later : σ}
    {segment : List Token} {compound : Compound}
    (derived : CompoundOf setting known segment compound later) : segment ≠ [] := by
  obtain ⟨token, more, rfl, -⟩ := derived.exists_cons
  exact List.cons_ne_nil _ _

end Grammar

namespace Selector.Parser

open Grammar Reading

variable {σ : Type} {context : Context σ} {setting : Setting σ}
  {remarks : List Remark} {known later : σ}

private theorem readClassName_iff {opened : Option Nat} {tokens rest : List Token}
    {fewer : rest.length < tokens.length} {simple : Simple} :
    readClassName opened tokens = .ok (simple, ⟨rest, fewer⟩) ↔
      ∃ token name, tokens = token :: rest ∧ token.kind = .ident name ∧
        token.startsWithDigit 0 = false ∧ simple = .className name := by
  cases tokens with
  | nil => cases fewer
  | cons token others =>
      simp only [readClassName]
      constructor
      · intro answered
        split at answered
        · rename_i name kind plain
          cases answered
          exact ⟨token, name, rfl, kind, plain, rfl⟩
        · cases answered
      · intro named
        obtain ⟨_, name, ⟨⟩, kind, plain, rfl⟩ := named
        simp only [kind, plain]
        rfl

theorem readCondition?_sound (reads : context.Reads setting)
    {token : Token} {others rest : List Token}
    {noMore : rest.length ≤ others.length} {simple : Simple}
    (answered : Yields (readCondition? context token others) remarks known
      (some (simple, ⟨rest, noMore⟩)) later) :
    ∃ segment, others = segment ++ rest ∧
      Condition setting known (token :: segment) simple later := by
  unfold readCondition? at answered
  split at answered
  · rename_i name kind
    split at answered
    · exact absurd answered not_yields_throw
    · rename_i plain
      obtain ⟨⟨rfl, rfl⟩, rfl⟩ := yields_some_iff.mp answered
      exact ⟨[], rfl, .id kind (Bool.eq_false_iff.mpr plain)⟩
  · rename_i kind
    obtain ⟨⟨result, after, _⟩, _, read, result⟩ := answered.of_ofExcept_bind
    obtain ⟨⟨rfl, rfl⟩, rfl⟩ := yields_some_iff.mp result
    obtain ⟨named, name, rfl, namedKind, plain, rfl⟩ := readClassName_iff.mp read
    exact ⟨[named], rfl, .className kind namedKind plain⟩
  · rename_i kind
    obtain ⟨⟨test, after, _⟩, _, read, result⟩ := answered.of_ofExcept_bind
    obtain ⟨⟨rfl, rfl⟩, rfl⟩ := yields_some_iff.mp result
    obtain ⟨segment, rfl, derived⟩ := readAttribute_iff.mp read
    exact ⟨segment, rfl, .attribute kind derived⟩
  · rename_i kind
    obtain ⟨⟨result, after, _⟩, between, _, found, result⟩ := answered.exists_first
    obtain ⟨segment, rfl, derived⟩ := readPseudo_sound reads found
    obtain ⟨⟨rfl, rfl⟩, rfl⟩ := yields_some_iff.mp result
    exact ⟨segment, rfl, .pseudo kind derived⟩
  · obtain ⟨same, -⟩ := yields_pure_iff.mp answered
    cases same

private theorem readCondition?_complete (reads : context.Reads setting)
    {token : Token} {segment rest : List Token} {simple : Simple}
    (derived : Condition setting known (token :: segment) simple later) :
    Yields (readCondition? context token (segment ++ rest)) remarks known
      (some (simple, ⟨rest, length_le_append⟩)) later := by
  unfold readCondition?
  cases derived with
  | id kind plain =>
      simp only [kind, plain, Bool.false_eq_true, if_false]
      exact yields_pure_iff.mpr ⟨rfl, rfl⟩
  | @className _ named name kind own plain =>
      simp only [kind]
      have read : readClassName context.opened (named :: rest) =
          .ok (.className name, ⟨rest, Nat.lt_succ_self _⟩) :=
        readClassName_iff.mpr ⟨named, name, rfl, own, plain, rfl⟩
      exact yields_ofExcept_bind read fun _ => yields_pure_iff.mpr ⟨rfl, rfl⟩
  | @«attribute» _ _ test kind derived =>
      simp only [kind]
      have read : readAttribute context.opened token.start (segment ++ rest) =
          .ok (test, ⟨rest, length_lt_of_ne_nil derived.ne_nil⟩) :=
        readAttribute_iff.mpr ⟨segment, rfl, derived⟩
      exact yields_ofExcept_bind read fun _ => yields_pure_iff.mpr ⟨rfl, rfl⟩
  | pseudo kind derived =>
      simp only [kind]
      exact (readPseudo_complete reads derived).bind fun _ =>
        yields_pure_iff.mpr ⟨rfl, rfl⟩

/-- No condition is read exactly if none starts. -/
theorem readCondition?_yields_none_iff {token : Token} {others : List Token} :
    Yields (readCondition? context token others) remarks known none later ↔
      startsCondition token.kind = false ∧ known = later := by
  unfold readCondition?
  split
  · rename_i name kind
    rw [kind]
    refine iff_of_false ?_ (by simp [startsCondition])
    split
    · exact not_yields_throw
    · simp
  · rename_i kind
    rw [kind]
    refine iff_of_false (fun answered => ?_) (by simp [startsCondition])
    obtain ⟨⟨result, after, _⟩, between, _, -, result⟩ := answered.exists_first
    simp at result
  · rename_i kind
    rw [kind]
    refine iff_of_false (fun answered => ?_) (by simp [startsCondition])
    obtain ⟨⟨result, after, _⟩, between, _, -, result⟩ := answered.exists_first
    simp at result
  · rename_i kind
    rw [kind]
    refine iff_of_false (fun answered => ?_) (by simp [startsCondition])
    obtain ⟨⟨result, after, _⟩, between, _, -, result⟩ := answered.exists_first
    simp at result
  · rename_i notHash notDot notBracket notColon
    rw [yields_pure_iff]
    refine and_congr_left fun _ => iff_of_true rfl ?_
    cases kind : token.kind with
    | hash name => exact absurd kind (notHash name)
    | delim char =>
        by_cases dot : char = '.'
        · subst dot
          exact absurd kind notDot
        · simp [startsCondition, dot]
    | leftBracket => exact absurd kind notBracket
    | colon => exact absurd kind notColon
    | _ => rfl

theorem readFirst?_sound (reads : context.Reads setting)
    {token : Token} {others rest : List Token}
    {noMore : rest.length ≤ others.length} {simple : Simple}
    (answered : Yields (readFirst? context token others) remarks known
      (some (simple, ⟨rest, noMore⟩)) later) :
    ∃ segment, others = segment ++ rest ∧
      First setting known (token :: segment) simple later := by
  unfold readFirst? at answered
  split at answered
  · rename_i name kind
    split at answered
    · exact absurd answered not_yields_throw
    · rename_i plain
      obtain ⟨⟨rfl, rfl⟩, rfl⟩ := yields_some_iff.mp answered
      exact ⟨[], rfl, .type kind (Bool.eq_false_iff.mpr plain)⟩
  · rename_i kind
    obtain ⟨⟨rfl, rfl⟩, rfl⟩ := yields_some_iff.mp answered
    exact ⟨[], rfl, .universal kind⟩
  · obtain ⟨segment, rfl, derived⟩ := readCondition?_sound reads answered
    exact ⟨segment, rfl, .condition derived⟩

private theorem readFirst?_of_startsCondition {token : Token} {others : List Token}
    (starts : startsCondition token.kind = true) :
    readFirst? context token others = readCondition? context token others := by
  unfold readFirst?
  split
  · rename_i name kind
    rw [kind] at starts
    cases starts
  · rename_i kind
    rw [kind] at starts
    simp [startsCondition] at starts
  · rfl

private theorem readFirst?_complete (reads : context.Reads setting)
    {token : Token} {segment rest : List Token} {simple : Simple}
    (derived : First setting known (token :: segment) simple later) :
    Yields (readFirst? context token (segment ++ rest)) remarks known
      (some (simple, ⟨rest, length_le_append⟩)) later := by
  cases derived with
  | type kind plain =>
      simp only [readFirst?, kind, plain, Bool.false_eq_true, if_false]
      exact yields_pure_iff.mpr ⟨rfl, rfl⟩
  | universal kind =>
      simp only [readFirst?, kind]
      exact yields_pure_iff.mpr ⟨rfl, rfl⟩
  | condition derived =>
      obtain ⟨_, _, ⟨⟩, starts⟩ := derived.exists_cons
      rw [readFirst?_of_startsCondition starts]
      exact readCondition?_complete reads derived

private theorem readConditions_sound (reads : context.Reads setting)
    {tokens rest : List Token} {noMore : rest.length ≤ tokens.length}
    {conditions : List Simple}
    (answered : Yields (readConditions context tokens) remarks known
      (conditions, ⟨rest, noMore⟩) later) :
    ∃ segment, tokens = segment ++ rest ∧
      Conditions setting known segment conditions later ∧ EndsCompound rest := by
  -- Each condition leaves fewer tokens for those after it.
  induction tokens using (measure List.length).wf.induction generalizing
    rest conditions remarks known later with
  | _ tokens induction =>
  cases tokens with
  | nil =>
      rw [readConditions] at answered
      obtain ⟨⟨rfl, rfl⟩, rfl⟩ := yields_pair_iff.mp answered
      exact ⟨[], rfl, .nil, by simp [EndsCompound]⟩
  | cons token others =>
      rw [readConditions] at answered
      obtain ⟨found, between, notes, answered, result⟩ := answered.exists_first
      cases found with
      | none =>
          obtain ⟨stops, rfl⟩ := readCondition?_yields_none_iff.mp answered
          obtain ⟨⟨rfl, rfl⟩, rfl⟩ := yields_pair_iff.mp result
          exact ⟨[], rfl, .nil, by simpa [EndsCompound] using stops⟩
      | some pair =>
          obtain ⟨simple, after, shorter⟩ := pair
          obtain ⟨segment, rfl, first⟩ := readCondition?_sound reads answered
          obtain ⟨⟨more, left, _⟩, learnt, _, continued, result⟩ :=
            result.exists_first
          obtain ⟨tail, rfl, derived, ends⟩ :=
            induction _ (Nat.lt_succ_of_le shorter) continued
          obtain ⟨⟨rfl, rfl⟩, rfl⟩ := yields_pair_iff.mp result
          exact ⟨token :: segment ++ tail, by simp, .cons first derived, ends⟩

private theorem readConditions_of_endsCompound {rest : List Token}
    (ends : EndsCompound rest) :
    Yields (readConditions context rest) remarks known
      ([], ⟨rest, Nat.le_refl _⟩) known := by
  cases rest with
  | nil =>
      rw [readConditions]
      exact yields_pure_iff.mpr ⟨rfl, rfl⟩
  | cons token others =>
      have stops : startsCondition token.kind = false := by
        simpa [EndsCompound] using ends
      rw [readConditions]
      exact (readCondition?_yields_none_iff.mpr ⟨stops, rfl⟩).bind fun _ =>
        yields_pure_iff.mpr ⟨rfl, rfl⟩

private theorem readConditions_complete (reads : context.Reads setting)
    {segment rest : List Token} {conditions : List Simple}
    (derived : Conditions setting known segment conditions later)
    (ends : EndsCompound rest) :
    Yields (readConditions context (segment ++ rest)) remarks known
      (conditions, ⟨rest, length_le_append⟩) later := by
  induction derived generalizing remarks with
  | nil => exact readConditions_of_endsCompound ends
  | @cons known between later _ tail simple more head following continues =>
      obtain ⟨token, inner, rfl, -⟩ := head.exists_cons
      have shape : token :: inner ++ tail ++ rest =
          token :: (inner ++ (tail ++ rest)) := by
        simp
      have answers : ∀ fits, Yields (readConditions context
          (token :: (inner ++ (tail ++ rest)))) remarks known
          (simple :: more, ⟨rest, fits⟩) later := by
        intro fits
        rw [readConditions]
        exact (readCondition?_complete reads head).bind fun _ =>
          continues.bind fun _ => yields_pure_iff.mpr ⟨rfl, rfl⟩
      rw [← shape] at answers
      exact answers length_le_append

theorem readCompound_sound (reads : context.Reads setting)
    {tokens rest : List Token} {fewer : rest.length < tokens.length}
    {compound : Compound}
    (answered : Yields (readCompound context tokens) remarks known
      (compound, ⟨rest, fewer⟩) later) :
    ∃ segment, tokens = segment ++ rest ∧
      CompoundOf setting known segment compound later ∧ EndsCompound rest := by
  cases tokens with
  | nil => cases fewer
  | cons token others =>
      rw [readCompound] at answered
      obtain ⟨found, between, notes, answered, result⟩ := answered.exists_first
      cases found with
      | none => exact absurd result not_yields_throw
      | some pair =>
          obtain ⟨simple, after, shorter⟩ := pair
          obtain ⟨segment, rfl, first⟩ := readFirst?_sound reads answered
          obtain ⟨⟨more, left, _⟩, learnt, _, continued, result⟩ :=
            result.exists_first
          obtain ⟨tail, rfl, derived, ends⟩ := readConditions_sound reads continued
          obtain ⟨⟨rfl, rfl⟩, rfl⟩ := yields_pair_iff.mp result
          exact ⟨token :: segment ++ tail, by simp, .conditions first derived,
            ends⟩

theorem readCompound_complete (reads : context.Reads setting)
    {segment rest : List Token} {compound : Compound}
    (derived : CompoundOf setting known segment compound later)
    (ends : EndsCompound rest) :
    Yields (readCompound context (segment ++ rest)) remarks known
      (compound, ⟨rest, length_lt_of_ne_nil derived.ne_nil⟩) later := by
  obtain ⟨_, tail, simple, more, between, rfl, rfl, head, following⟩ :=
    derived.exists_first
  obtain ⟨token, inner, rfl, -⟩ := head.exists_cons
  have shape : token :: inner ++ tail ++ rest =
      token :: (inner ++ (tail ++ rest)) := by
    simp
  have answers : ∀ fits, Yields (readCompound context
      (token :: (inner ++ (tail ++ rest)))) remarks known
      (simple :: more, ⟨rest, fits⟩) later := by
    intro fits
    rw [readCompound]
    exact (readFirst?_complete reads head).bind fun _ =>
      (readConditions_complete reads following ends).bind fun _ =>
        yields_pure_iff.mpr ⟨rfl, rfl⟩
  rw [← shape] at answers
  exact answers _

end Selector.Parser

end TreeSelectors
