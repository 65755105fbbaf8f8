import TreeSelectors.Proofs.Selector.Printing

/-!
# Line feeds in names

A name is written with a backslash in front of everything that cannot stand in a name as
it is, and so in front of a line feed.  But a backslash at the end of a line is no escape:
the name ends there, and the backslash is a token of its own, which derives nothing.  So
the canonical text of a selector is not read again if one of its names has a line feed.
-/

namespace TreeSelectors

namespace Grammar

open Token

variable {first second text rest : List Char}

/-! ## Pieces of text -/

/-- In front of `rest`, the text is split into tokens of its own. -/
def Splits (text rest : List Char) : Prop :=
  ∀ start, ∃ segment,
    scanFrom start (text ++ rest) = segment ++ scanFrom (start + text.length) rest

theorem Scans.splits {depth : Nat} {derives : Nat → List Token → Prop}
    (scans : Scans text rest depth derives) : Splits text rest := by
  intro start
  obtain ⟨segment, scanned, -⟩ := scans start
  exact ⟨segment, scanned⟩

theorem splits_of_writes {kind : TokenKind} (writes : Writes text rest kind) :
    Splits text rest :=
  fun start => ⟨[⟨kind, start, text⟩], writes.scanFrom_append start⟩

/-- Whatever stands behind the text, there is a lone backslash among the tokens. -/
def Stalls (text : List Char) : Prop :=
  ∀ start rest, ∃ token ∈ scanFrom start (text ++ rest), token.kind = .delim '\\'

theorem Stalls.append (stalls : Stalls first) (second : List Char) :
    Stalls (first ++ second) := by
  intro start rest
  rw [List.append_assoc]
  exact stalls start (second ++ rest)

theorem Stalls.behind (stalls : Stalls second)
    (splits : ∀ rest, Splits first (second ++ rest)) : Stalls (first ++ second) := by
  intro start rest
  obtain ⟨segment, scanned⟩ := splits rest start
  obtain ⟨token, member, kind⟩ := stalls (start + first.length) rest
  rw [List.append_assoc, scanned]
  exact ⟨token, List.mem_append_right _ member, kind⟩

/-! ## Names -/

/-- Behind the first token, the text goes on where that token ends. -/
private theorem exists_scanFrom_cons {char : Char} (noComment : char ≠ '/') (start : Nat)
    (rest : List Char) :
    ∃ token next, scanFrom start (char :: rest) =
      token :: scanFrom next (readKind char rest).2 ∧
        token.kind = (readKind char rest).1 := by
  have skipped : skipComments (char :: rest) = char :: rest := by
    rw [skipComments]
    intro after same
    exact noComment (List.cons.inj same).1
  rw [scanFrom.eq_def]
  split
  · rename_i empty
    cases skipped.symm.trans empty
  · rename_i scanned
    obtain ⟨rfl, rfl⟩ := List.cons.inj (skipped.symm.trans scanned)
    exact ⟨_, _, rfl, rfl⟩

private theorem exists_backslash (start : Nat) (rest : List Char) :
    ∃ token ∈ scanFrom start ('\\' :: '\n' :: rest), token.kind = .delim '\\' := by
  obtain ⟨token, next, scanned, kind⟩ :=
    @exists_scanFrom_cons '\\' (by decide) start ('\n' :: rest)
  rw [scanned]
  exact ⟨token, List.mem_cons_self, kind⟩

/-- A token that ends in front of a line feed behind a backslash. -/
private theorem exists_backslash_of_readKind {char : Char} {more : List Char}
    (noComment : char ≠ '/') (read : (readKind char rest).2 = '\\' :: '\n' :: more)
    (start : Nat) :
    ∃ token ∈ scanFrom start (char :: rest), token.kind = .delim '\\' := by
  obtain ⟨_, next, scanned, -⟩ := exists_scanFrom_cons noComment start rest
  obtain ⟨token, member, kind⟩ := exists_backslash next more
  rw [scanned, read]
  exact ⟨token, List.mem_cons_of_mem _ member, kind⟩

theorem stalls_name {name : List Char} (broken : '\n' ∈ name) :
    Stalls (Text.writeName name) := by
  intro start rest
  obtain ⟨char, others, written, starts⟩ :=
    Text.exists_writeName_cons (List.ne_nil_of_mem broken)
  obtain ⟨front, more, read⟩ := Text.readName_writeName_lineFeed broken rest
  rw [written, List.cons_append] at read ⊢
  cases named : Text.startsName (char :: (others ++ rest)) with
  | true =>
      have kind := (readKind_of_startsName starts named).trans
        (readNamed_of_not_paren read (by simp))
      exact exists_backslash_of_readKind (ne_slash_of_startsName starts) (by rw [kind])
        start
  | false =>
      have same := (Text.readName_of_not_startsName named).symm.trans read
      rw [(Prod.mk.inj same).2]
      exact exists_backslash start more

theorem stalls_hash {name : List Char} (broken : '\n' ∈ name) :
    Stalls ('#' :: Text.writeName name) := by
  intro start rest
  obtain ⟨front, more, read⟩ := Text.readName_writeName_lineFeed broken rest
  have behind : (readKind '#' (Text.writeName name ++ rest)).2 = '\\' :: '\n' :: more := by
    have notBlank : Text.isBlank '#' = false := by decide
    cases named : Text.startsName (Text.writeName name ++ rest) with
    | true => simp [readKind, notBlank, named, read]
    | false =>
        have same := (Text.readName_of_not_startsName named).symm.trans read
        have noName : Text.startsName ('#' :: (Text.writeName name ++ rest)) = false := rfl
        simpa [readKind, notBlank, named, noName, punctuation?] using (Prod.mk.inj same).2
  exact exists_backslash_of_readKind (by decide) behind start

/-- Some name has a line feed. -/
def HasLineFeed (names : List String) : Prop :=
  ∃ name ∈ names, '\n' ∈ name.toList

@[simp] theorem not_hasLineFeed_nil : ¬ HasLineFeed [] := by
  simp [HasLineFeed]

@[simp] theorem hasLineFeed_single_iff {name : String} :
    HasLineFeed [name] ↔ '\n' ∈ name.toList := by
  simp [HasLineFeed]

@[simp] theorem hasLineFeed_append_iff {names others : List String} :
    HasLineFeed (names ++ others) ↔ HasLineFeed names ∨ HasLineFeed others := by
  simp only [HasLineFeed, List.mem_append, or_and_right, exists_or]

theorem isName_of_not_hasLineFeed {names : List String}
    (nonempty : ∀ name ∈ names, name ≠ "") (whole : ¬ HasLineFeed names) :
    ∀ name ∈ names, IsName name :=
  fun name member => ⟨nonempty name member, fun breaks => whole ⟨name, member, breaks⟩⟩

/-! ## Conditions -/

/-- Without any aliases: the tokens of a text do not depend on them. -/
def noAliases : AliasSource Unit :=
  ⟨fun _ => pure none, fun _ => false⟩

private theorem splits_simple {simple : Simple} (formed : simple.Formed)
    (named : ∀ name ∈ simple.names, IsName name) (ends : EndsIdent rest) :
    Splits simple.write rest := by
  cases leads : simple.isLeading with
  | true => exact (@scans_leading Unit noAliases () rest simple leads named ends).splits
  | false =>
      exact (@scans_condition Unit noAliases () simple rest leads formed named ends).splits

/-- Either the condition stalls, or the conditions behind it do. -/
private theorem stalls_cons {simple : Simple} {more : List Simple}
    (formed : simple.Formed)
    (formedMore : Compound.FormedMore more)
    (nonempty : ∀ name ∈ simple.names, name ≠ "")
    (head : HasLineFeed simple.names → Stalls simple.write)
    (tail : HasLineFeed (Compound.names more) → Stalls (Compound.writeConditions more))
    (broken : HasLineFeed (Compound.names (simple :: more))) :
    Stalls (simple.write ++ Compound.writeConditions more) := by
  by_cases first : HasLineFeed simple.names
  · exact (head first).append _
  · have later := (hasLineFeed_append_iff.mp broken).resolve_left first
    refine (tail later).behind fun rest => ?_
    refine splits_simple formed (isName_of_not_hasLineFeed nonempty first) ?_
    refine endsIdent_writeConditions formedMore fun empty => ?_
    simp [empty, Compound.names] at later

/-! ## Chains -/

/-- The text of a compound stalls if a name in it has a line feed. -/
def CompoundStalls (compound : Compound) : Prop :=
  HasLineFeed (Compound.names compound) → Stalls (Compound.write compound)

theorem stalls_links {left : List (Combinator × Compound)} {subject : Compound}
    (compounds : ∀ link ∈ left, CompoundStalls link.2) (last : CompoundStalls subject)
    (formed : Compound.Formed subject)
    (nonempty : ∀ name ∈ Compound.names subject, name ≠ "")
    (formedLeft : Chain.FormedLeft left)
    (nonemptyLeft : ∀ name ∈ Chain.namesLeft left, name ≠ "")
    (broken : HasLineFeed (Compound.names subject ++ Chain.namesLeft left)) :
    Stalls (Chain.writeLeft left ++ Compound.write subject) := by
  induction left generalizing subject with
  | nil =>
      rw [Chain.namesLeft, List.append_nil] at broken
      exact last broken
  | cons link more induction =>
      obtain ⟨combinator, compound⟩ := link
      obtain ⟨formedHead, formedMore⟩ := formedLeft
      obtain ⟨head, compounds⟩ := List.forall_mem_cons.mp compounds
      rw [Chain.namesLeft] at nonemptyLeft broken
      obtain ⟨nonemptyHead, nonemptyMore⟩ := List.forall_mem_append.mp nonemptyLeft
      have text : Chain.writeLeft ((combinator, compound) :: more) ++
          Compound.write subject =
          (Chain.writeLeft more ++ Compound.write compound) ++
            (combinator.write ++ Compound.write subject) := by
        simp [Chain.writeLeft]
      rw [text]
      by_cases inner : HasLineFeed (Compound.names compound ++ Chain.namesLeft more)
      · exact (induction compounds head formedHead nonemptyHead formedMore nonemptyMore
          inner).append _
      · have named := isName_of_not_hasLineFeed nonemptyLeft inner
        obtain ⟨namedHead, namedMore⟩ := List.forall_mem_append.mp named
        have subjectStalls :=
          last ((hasLineFeed_append_iff.mp broken).resolve_right inner)
        refine (subjectStalls.behind fun rest => ?_).behind fun rest => ?_
        · exact (scans_separator (endsBlank_writeCompound formed nonempty)).splits
        · have stops : EndsIdent (combinator.write ++ Compound.write subject ++ rest) := by
            cases combinator with
            | _ => exact endsIdent_cons rfl (by decide) (by decide)
          exact (scans_links (scans_compounds more formedMore namedMore)
            (@scans_compound Unit noAliases () compound formedHead namedHead) formedHead
            namedHead formedMore namedMore stops).splits

theorem stalls_chain {chain : Chain} {relative : Bool}
    (compounds : ∀ link ∈ chain.left, CompoundStalls link.2)
    (last : CompoundStalls chain.subject) (formed : chain.Formed relative)
    (nonempty : ∀ name ∈ chain.names, name ≠ "") (broken : HasLineFeed chain.names) :
    Stalls chain.write := by
  obtain ⟨subject, left, anchor⟩ := chain
  obtain ⟨formed, formedLeft, anchored⟩ := formed
  obtain ⟨nonempty, nonemptyLeft⟩ := List.forall_mem_append.mp nonempty
  have text : Chain.write ⟨subject, left, anchor⟩ = Chain.writeAnchor anchor ++
      (Chain.writeLeft left ++ Compound.write subject) := by
    simp [Chain.write]
  rw [text]
  have linked := stalls_links compounds last formed nonempty formedLeft
    nonemptyLeft broken
  refine linked.behind fun rest => ?_
  exact (scans_anchor anchored
    (endsBlank_writeLinks formed nonempty formedLeft nonemptyLeft)).splits

/-! ## Selectors -/

mutual

theorem stalls_simple (simple : Simple) (formed : simple.Formed)
    (nonempty : ∀ name ∈ simple.names, name ≠ "") (broken : HasLineFeed simple.names) :
    Stalls simple.write := by
  have own {name : String} (broken : HasLineFeed [name]) : '\n' ∈ name.toList :=
    hasLineFeed_single_iff.mp broken
  have colon (rest : List Char) : Splits [':'] rest := scans_colon.splits
  cases simple with
  | universal | plain | nth => simp [Simple.names] at broken
  | type name => exact stalls_name (own broken)
  | id name => exact stalls_hash (own broken)
  | className name =>
      have dot (rest : List Char) : Splits ['.'] rest := splits_of_writes (.sign rfl)
      exact (stalls_name (own broken)).behind fun rest => dot _
  | «attribute» test =>
      have bracket (rest : List Char) : Splits ['['] rest :=
        (scans_punctuation rfl fun _ => rfl).splits
      have opened := (stalls_name (own broken)).behind fun rest => bracket _
      rw [Simple.write, AttributeTest.write]
      exact (opened.append _).append [']']
  | pseudoElement name =>
      have named := (stalls_name (own broken)).behind fun rest => colon _
      exact named.behind fun rest => colon _
  | functional function argument =>
      have inner := stalls_list argument formed.1 formed.2 nonempty broken
      have opens (rest : List Char) : Splits (function.name.toList ++ ['(']) rest := by
        cases function
        all_goals exact splits_of_writes (.function (by decide) (by decide))
      have called := (inner.behind fun rest => opens _).behind fun rest => colon _
      have closed := called.append [')']
      simpa [Simple.write] using closed
termination_by structural simple

theorem stalls_conditions (conditions : List Simple)
    (formed : Compound.FormedMore conditions)
    (nonempty : ∀ name ∈ Compound.names conditions, name ≠ "")
    (broken : HasLineFeed (Compound.names conditions)) :
    Stalls (Compound.writeConditions conditions) := by
  cases conditions with
  | nil => simp [Compound.names] at broken
  | cons simple more =>
      obtain ⟨following, formedHead, formedMore⟩ := formed
      obtain ⟨nonemptyHead, nonemptyMore⟩ := List.forall_mem_append.mp nonempty
      exact stalls_cons formedHead formedMore nonemptyHead
        (stalls_simple simple formedHead nonemptyHead)
        (stalls_conditions more formedMore nonemptyMore) broken
termination_by structural conditions

theorem stalls_compound (compound : List Simple) (formed : Compound.Formed compound)
    (nonempty : ∀ name ∈ Compound.names compound, name ≠ "") :
    CompoundStalls compound := by
  intro broken
  cases compound with
  | nil => exact formed.elim
  | cons simple more =>
      obtain ⟨formedHead, formedMore⟩ := formed
      obtain ⟨nonemptyHead, nonemptyMore⟩ := List.forall_mem_append.mp nonempty
      exact stalls_cons formedHead formedMore nonemptyHead
        (stalls_simple simple formedHead nonemptyHead)
        (stalls_conditions more formedMore nonemptyMore) broken
termination_by structural compound

theorem stalls_compounds (left : List (Combinator × List Simple))
    (formed : Chain.FormedLeft left)
    (nonempty : ∀ name ∈ Chain.namesLeft left, name ≠ "") :
    ∀ link ∈ left, CompoundStalls link.2 := by
  cases left with
  | nil => simp
  | cons link more =>
      obtain ⟨combinator, compound⟩ := link
      obtain ⟨nonemptyHead, nonemptyMore⟩ := List.forall_mem_append.mp nonempty
      exact List.forall_mem_cons.mpr ⟨stalls_compound compound formed.1 nonemptyHead,
        stalls_compounds more formed.2 nonemptyMore⟩
termination_by structural left

theorem stalls_member (chain : Chain) {relative : Bool} (formed : chain.Formed relative)
    (nonempty : ∀ name ∈ chain.names, name ≠ "") (broken : HasLineFeed chain.names) :
    Stalls chain.write := by
  cases chain with
  | mk subject left anchor =>
      obtain ⟨nonemptySubject, nonemptyLeft⟩ := List.forall_mem_append.mp nonempty
      exact stalls_chain (stalls_compounds left formed.2.1 nonemptyLeft)
        (stalls_compound subject formed.1 nonemptySubject) formed nonempty broken
termination_by structural chain

theorem stalls_list (chains : List Chain) {relative : Bool} (listed : chains ≠ [])
    (formed : Selector.Formed relative chains)
    (nonempty : ∀ name ∈ Selector.names chains, name ≠ "")
    (broken : HasLineFeed (Selector.names chains)) : Stalls (Selector.write chains) := by
  cases chains with
  | nil => exact absurd rfl listed
  | cons chain more =>
      obtain ⟨formedHead, formedMore⟩ := formed
      obtain ⟨nonemptyHead, nonemptyMore⟩ := List.forall_mem_append.mp nonempty
      by_cases first : HasLineFeed chain.names
      · rw [Selector.write]
        exact (stalls_member chain formedHead nonemptyHead first).append _
      · have later := (hasLineFeed_append_iff.mp broken).resolve_left first
        have named := isName_of_not_hasLineFeed nonemptyHead first
        cases more with
        | nil => simp [Selector.names] at later
        | cons next others =>
            have tail := stalls_list (next :: others) (List.cons_ne_nil _ _) formedMore
              nonemptyMore later
            have text : Selector.write (chain :: next :: others) =
                chain.write ++ ([','] ++ ([' '] ++ Selector.write (next :: others))) := by
              simp [Selector.write, Selector.writeMore]
            rw [text]
            refine ((tail.behind fun rest => ?_).behind fun rest => ?_).behind
              fun rest => ?_
            · exact (scans_space (endsBlank_writeList (List.cons_ne_nil _ _) formedMore
                nonemptyMore)).splits
            · exact (scans_punctuation rfl fun _ => rfl).splits
            · exact (@scans_member Unit noAliases () chain relative _ formedHead named
                (endsIdent_cons rfl (by decide) (by decide))).splits
termination_by structural chains

end

/-- A selector in which a name has a line feed is not read from its canonical text, from
which nothing else is read either. -/
theorem not_yields_read_text {σ : Type} {aliases : AliasSource σ} {maxNesting : Nat}
    {remarks : List Remark} {known later : σ} {selector other : Selector}
    (listed : selector ≠ []) (formed : Selector.Formed false selector)
    (nonempty : ∀ name ∈ Selector.names selector, name ≠ "")
    (broken : HasLineFeed (Selector.names selector)) :
    ¬ Reading.Yields (Selector.read aliases maxNesting (Selector.text selector)) remarks
      known other later := by
  intro read
  obtain ⟨token, member, kind⟩ := stalls_list selector listed formed nonempty broken 0 []
  rw [List.append_nil] at member
  refine Selector.finished_of_read read token ?_ (Or.inr kind)
  rw [scan, Selector.text, String.toList_ofList]
  exact member

end Grammar

end TreeSelectors
