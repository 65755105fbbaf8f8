import TreeSelectors.CompiledSelector
import TreeSelectors.Proofs.Alias.Builtin
import TreeSelectors.Proofs.Selector.BrokenSelectors

/-!
# What errors say about a text

Where the tokens of a text run out, the error names the innermost construct that is still
open: brackets, the argument of a function, or none.  Which one it is can be told from
the tokens alone.  Such an error comes from the end of the text only, any other one does
not depend on it; and every offset in an error is that of a token.
-/

namespace TreeSelectors

open Grammar Token

/-! ## Reports -/

/-- What an error says about all tokens of a text: the last opening bracket has no closing
one behind it; or some functions are not closed, the last of which starts at an offset;
or all functions are closed.  Other errors say nothing about what is open. -/
def ParseError.Reports (tokens : List Token) : ParseError → Prop
  | .unclosedBracket position =>
      ∃ front bracket inner, tokens = front ++ bracket :: inner ∧
        bracket.kind = .leftBracket ∧ bracket.start = position ∧
        ∀ token ∈ inner, token.kind ≠ .leftBracket ∧ token.kind ≠ .rightBracket
  | .unclosedParen position =>
      ∃ function others, unclosed tokens = function :: others ∧
        (∃ name, function.kind = .function name) ∧ function.start = position
  | .unexpectedEnd => unclosed tokens = []
  | _ => True

private theorem ParseError.reports_of_not_ranOut {failure : ParseError}
    (notEnd : ¬ failure.RanOut) (tokens : List Token) : failure.Reports tokens := by
  cases failure <;> first | trivial | exact absurd trivial notEnd

namespace Grammar

variable {body : List Token} {stop : Token} {failure : ParseError}

private theorem Lacks.reports (lacks : Lacks [] body failure)
    (stops : stop.kind = .endOfInput) :
    failure.Reports (body ++ [stop]) := by
  cases lacks with
  | @bracket front inner bracket kind inside =>
      refine ⟨front, bracket, inner ++ [stop], by simp, kind, rfl, ?_⟩
      exact List.forall_mem_append.mpr ⟨inside, by simp [stops]⟩
  | @argument _ others function functions =>
      have member : function ∈ unclosed body := by simp [unclosed, functions]
      exact ⟨function, others, (unclosed_append_end stops body).trans functions,
        (mem_of_mem_unclosed member).2, rfl⟩
  | nothing closed => exact (unclosed_append_end stops body).trans closed

theorem Lacks.ranOut (lacks : Lacks [] body failure) : failure.RanOut := by
  cases lacks <;> trivial

private theorem Faults.not_ranOut (faults : Faults body failure) (goesOn : GoesOn body) :
    ¬ failure.RanOut := by
  cases faults with
  | @token token member => exact ParseError.not_ranOut_refusing (goesOn token member)
  | general notLocated => exact ParseError.not_ranOut_of_not_located notLocated

/-- Offsets in errors are those of tokens. -/
theorem Lacks.exists_token (lacks : Lacks [] body failure) :
    ∀ position ∈ failure.position?, ∃ token ∈ body, token.start = position := by
  cases lacks with
  | @bracket front inner bracket kind inside =>
      rintro _ ⟨⟩
      exact ⟨bracket, by simp, rfl⟩
  | @argument _ others function functions =>
      have member : function ∈ unclosed body := by simp [unclosed, functions]
      rintro _ ⟨⟩
      exact ⟨function, (mem_of_mem_unclosed member).1, rfl⟩
  | nothing closed => simp [ParseError.position?]

private theorem Faults.exists_token (faults : Faults body failure)
    (goesOn : GoesOn body) :
    ∀ position ∈ failure.position?, ∃ token ∈ body, token.start = position := by
  cases faults with
  | @token token member =>
      rw [ParseError.position?_refusing (goesOn token member)]
      rintro _ ⟨⟩
      exact ⟨token, member, rfl⟩
  | general notLocated => simp [ParseError.position?_of_not_located notLocated]

end Grammar

/-! ## Failures of parsing -/

theorem AliasTable.source_unlocated (table : AliasTable) (maxDepth : Nat) :
    (table.source maxDepth).Unlocated := by
  intro name known
  simp only [AliasTable.source]
  split
  · exact .pure trivial
  · split
    · exact id
    · exact .pure trivial

namespace Selector

variable {table : AliasTable} {limits : CompileLimits} {text : String}
  {failure : ParseError}

theorem ends_of_parseWith_error
    (failed : (Selector.parseWith (.ok table) limits text).1 = .error failure) :
    (Parser.readAll (table.source limits.maxAliasDepth) limits.maxNesting
      (Token.scan text)).ends ⟨(), []⟩ = .error failure := by
  simp only [Selector.parseWith, Selector.read, EStateM.run] at failed
  rw [Reading.ends]
  split at failed
  · cases failed
  · rename_i answered
    cases failed
    rw [answered]

/-- The error of a text comes from its end, or from what stands in front of the end. -/
theorem failure_cases {aliases : AliasSource Unit} {maxNesting : Nat}
    (unlocated : aliases.Unlocated)
    (cut : Break) {body : List Token} (goesOn : GoesOn body)
    (failed : (Parser.readAll aliases maxNesting (body ++ [cut.stop])).ends ⟨(), []⟩ =
      .error failure) :
    ((failure = .empty ∨ Lacks [] body failure) ∧
        (Parser.readAll aliases maxNesting (body ++ cut.bad :: cut.more)).ends ⟨(), []⟩ =
          .error (.refusing cut.bad)) ∨
      (Faults body failure ∧
        (Parser.readAll aliases maxNesting (body ++ cut.bad :: cut.more)).ends ⟨(), []⟩ =
          .error failure) := by
  have outcomes := Parser.readAll_outcomes unlocated cut maxNesting goesOn ⟨(), []⟩
  rw [failed] at outcomes
  generalize (Parser.readAll aliases maxNesting (body ++ cut.bad :: cut.more)).ends
    ⟨(), []⟩ = second at outcomes ⊢
  cases outcomes with
  | lacking lacks => exact .inl ⟨lacks, rfl⟩
  | faulty faults => exact .inr ⟨faults, rfl⟩

/-- The tokens of a text, and a place where they may break off. -/
theorem exists_break (text : String) :
    ∃ (cut : Break) (body : List Token), Token.scan text = body ++ [cut.stop] ∧
      GoesOn body := by
  obtain ⟨body, stop, scanned, stops, goesOn⟩ := Token.scanFrom_eq_append 0 text.toList
  exact ⟨⟨stop, ⟨.badString, 0, []⟩, [], stops, rfl⟩, body, scanned, goesOn⟩

theorem goesOn_of_scan_eq {cut : Break} {body : List Token}
    (scanned : Token.scan text = body ++ [cut.stop]) : GoesOn body := by
  obtain ⟨other, front, split, goesOn⟩ := exists_break text
  obtain ⟨rfl, -⟩ := List.append_inj' (scanned.symm.trans split) rfl
  exact goesOn

/-- Whatever is wrong with a text, the error names what is still open if the tokens ran
out, and every offset in it is that of a token.  If the end of the text is replaced by a
broken text, then an error from running out of tokens becomes one about this text, since
it was the end at which reading stopped; any other error stays, except that of a text
without any tokens but white space. -/
theorem parseWith_failure
    (failed : (Selector.parseWith (.ok table) limits text).1 = .error failure) :
    failure.Reports (Token.scan text) ∧
      (∀ position ∈ failure.position?, position ≤ text.length ∧
        ∃ token ∈ Token.scan text, token.start = position) ∧
      ∀ (cut : Break) (body : List Token), Token.scan text = body ++ [cut.stop] →
        (failure.RanOut →
          (Parser.readAll (table.source limits.maxAliasDepth) limits.maxNesting
            (body ++ cut.bad :: cut.more)).ends ⟨(), []⟩ =
              .error (.unterminatedString cut.bad.start)) ∧
        (¬ failure.RanOut → failure ≠ .empty →
          (Parser.readAll (table.source limits.maxAliasDepth) limits.maxNesting
            (body ++ cut.bad :: cut.more)).ends ⟨(), []⟩ = .error failure) := by
  replace failed := ends_of_parseWith_error failed
  have unlocated := table.source_unlocated limits.maxAliasDepth
  obtain ⟨cut, body, scanned, goesOn⟩ := exists_break text
  have cases := failure_cases unlocated cut goesOn (scanned ▸ failed)
  have reports : failure.Reports (Token.scan text) := by
    rw [scanned]
    rcases cases with ⟨rfl | lacks, -⟩ | ⟨faults, -⟩
    · trivial
    · exact lacks.reports cut.stops
    · exact ParseError.reports_of_not_ranOut (faults.not_ranOut goesOn) _
  have located : ∀ position ∈ failure.position?, ∃ token ∈ body,
      token.start = position := by
    rcases cases with ⟨rfl | lacks, -⟩ | ⟨faults, -⟩
    · simp [ParseError.position?]
    · exact lacks.exists_token
    · exact faults.exists_token goesOn
  refine ⟨reports, fun position stated => ?_, fun cut body scanned => ?_⟩
  · obtain ⟨token, member, rfl⟩ := located position stated
    have among : token ∈ Token.scan text := by simp [scanned, member]
    have bounded := Token.start_le_of_mem_scanFrom among
    rw [Nat.zero_add, String.length_toList] at bounded
    exact ⟨bounded, token, among, rfl⟩
  · have goesOn := goesOn_of_scan_eq scanned
    have cases := failure_cases unlocated cut goesOn (scanned ▸ failed)
    rcases cases with ⟨lacks, broken⟩ | ⟨faults, same⟩
    · refine ⟨fun _ => broken.trans (by rw [cut.refusing_bad]), fun notEnd notEmpty => ?_⟩
      rcases lacks with empty | lacks
      · exact absurd empty notEmpty
      · exact absurd lacks.ranOut notEnd
    · exact ⟨fun ranOut => absurd ranOut (faults.not_ranOut goesOn), fun _ _ => same⟩

/-- The same of parsing with the built-in aliases, for every text and all limits. -/
theorem parse_failure (failed : (Selector.parse limits text).1 = .error failure) :
    failure.Reports (Token.scan text) ∧
      (∀ position ∈ failure.position?, position ≤ text.length ∧
        ∃ token ∈ Token.scan text, token.start = position) ∧
      ∃ table, Alias.table = .ok table ∧
        ∀ (cut : Break) (body : List Token), Token.scan text = body ++ [cut.stop] →
          (failure.RanOut →
            (Parser.readAll (table.source limits.maxAliasDepth) limits.maxNesting
              (body ++ cut.bad :: cut.more)).ends ⟨(), []⟩ =
                .error (.unterminatedString cut.bad.start)) ∧
          (¬ failure.RanOut → failure ≠ .empty →
            (Parser.readAll (table.source limits.maxAliasDepth) limits.maxNesting
              (body ++ cut.bad :: cut.more)).ends ⟨(), []⟩ = .error failure) := by
  obtain ⟨table, isTable, -⟩ := Alias.exists_table
  rw [Selector.parse, isTable] at failed
  obtain ⟨reports, located, stops⟩ := parseWith_failure failed
  exact ⟨reports, located, table, isTable, stops⟩

/-- The function that is named is the inner one, although another argument was closed
before it, and stands in the text where the error says. -/
theorem parse_failure_inner :
    (Selector.parse {} ":is([a], :is(b), :not(c").1 = .error (.unclosedParen 18) ∧
      (∃ function others,
        unclosed (Token.scan ":is([a], :is(b), :not(c") = function :: others ∧
          (∃ name, function.kind = .function name) ∧ function.start = 18) ∧
      18 ≤ ":is([a], :is(b), :not(c".length := by
  have failed : (Selector.parse {} ":is([a], :is(b), :not(c").1 =
      .error (.unclosedParen 18) := by
    decide +kernel
  obtain ⟨reports, located, -⟩ := parse_failure failed
  exact ⟨failed, reports, (located 18 rfl).1⟩

end Selector

end TreeSelectors
