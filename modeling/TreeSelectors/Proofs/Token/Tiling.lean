import TreeSelectors.Proofs.Token.Comments

/-!
# Tokens side by side

The tokens of a text lie side by side: the first one starts where the text does, each of
the others where the one in front of it stops, and the last one stops where the text
ends.  So the characters between the offsets of a token are those that it was read from,
and all of them together are the text.
-/

namespace TreeSelectors

namespace Token

/-- Tokens that lie side by side from an offset on, and the characters that they are made
of.  Only the last one stands for the end of the input, and only it may be empty. -/
inductive Tiled : Nat → List Char → List Token → Prop where
  | stop {start : Nat} {text : List Char} :
      Tiled start text [⟨.endOfInput, start, text⟩]
  | token {token : Token} {rest : List Char} {more : List Token} :
      token.kind ≠ .endOfInput → token.text ≠ [] → Tiled token.stop rest more →
      Tiled token.start (token.text ++ rest) (token :: more)

theorem tiled_scanFrom (start : Nat) (text : List Char) :
    Tiled start text (scanFrom start text) := by
  fun_induction scanFrom start text with
  | case1 start text => exact .stop
  | case2 start text char rest skipped read length induction =>
      obtain ⟨-, front, rfl, -⟩ := skipComments_append skipped
      obtain ⟨part, same, -⟩ := readsAlike char rest
      have whole : front ++ char :: rest = (front ++ char :: part) ++ read.2 := by
        rw [List.append_assoc, List.cons_append, ← same]
      have exact : length = (front ++ char :: part).length := by
        simp only [length, whole, List.length_append, Nat.add_sub_cancel]
      rw [exact] at induction ⊢
      rw [whole, List.take_left]
      let first : Token := ⟨read.1, start, front ++ char :: part⟩
      have nonempty : first.text ≠ [] := by simp [first]
      have tail : Tiled first.stop read.2 _ := induction
      exact .token (readKind_fst_ne_endOfInput char rest) nonempty tail

namespace Tiled

variable {start : Nat} {text : List Char} {tokens front rest : List Token} {token : Token}

theorem flatMap_text (tiled : Tiled start text tokens) :
    tokens.flatMap Token.text = text := by
  induction tiled with
  | stop => simp
  | token _ _ _ induction => rw [List.flatMap_cons, induction]

theorem head_start (tiled : Tiled start text (token :: rest)) : token.start = start := by
  cases tiled with
  | stop | token => rfl

private theorem head_text (tiled : Tiled start text (token :: rest))
    (goesOn : token.kind ≠ .endOfInput) : token.text ≠ [] := by
  cases tiled with
  | stop => exact absurd rfl goesOn
  | token _ nonempty _ => exact nonempty

theorem nonempty (tiled : Tiled start text tokens) : tokens ≠ [] := by
  cases tiled with
  | stop | token => exact List.cons_ne_nil _ _

/-- What lies behind some of the tokens starts behind their characters. -/
theorem behind (tiled : Tiled start text (front ++ rest)) (goesOn : rest ≠ []) :
    Tiled (start + (front.flatMap Token.text).length) (rest.flatMap Token.text) rest := by
  induction front generalizing start text with
  | nil => exact tiled.flatMap_text ▸ tiled
  | cons token more induction =>
      generalize whole : token :: more ++ rest = tokens at tiled
      cases tiled with
      | stop =>
          obtain ⟨-, none⟩ := List.cons.inj whole
          exact absurd (List.append_eq_nil_iff.mp none).2 goesOn
      | token _ _ tail =>
          obtain ⟨rfl, rfl⟩ := List.cons.inj whole
          have inner := induction tail
          rwa [Token.stop, Nat.add_assoc, ← List.length_append] at inner

theorem isChain (tiled : Tiled start text tokens) :
    tokens.IsChain fun token next => token.stop = next.start := by
  induction tiled with
  | stop => exact .singleton _
  | @token token rest more _ _ tail induction =>
      cases more with
      | nil => exact .singleton _
      | cons next others => exact .cons_cons tail.head_start.symm induction

private theorem exists_stop (tiled : Tiled start text tokens) :
    ∃ body stop, tokens = body ++ [stop] ∧ stop.kind = .endOfInput ∧
      stop.stop = start + text.length ∧
      ∀ token ∈ body, token.kind ≠ .endOfInput ∧ token.text ≠ [] := by
  induction tiled with
  | stop => exact ⟨[], _, rfl, rfl, rfl, by simp⟩
  | @token token rest more goesOn nonempty _ induction =>
      obtain ⟨body, stop, rfl, ends, last, others⟩ := induction
      refine ⟨token :: body, stop, rfl, ends, ?_,
        List.forall_mem_cons.mpr ⟨⟨goesOn, nonempty⟩, others⟩⟩
      rw [last, Token.stop, List.length_append, Nat.add_assoc]

end Tiled

/-! ## Characters between offsets -/

section

variable {text : String} {front part rest : List Token}

theorem tiled_of_scan_eq (scanned : scan text = front ++ rest) (goesOn : rest ≠ []) :
    Tiled (front.flatMap Token.text).length (rest.flatMap Token.text) rest := by
  have tiled := tiled_scanFrom 0 text.toList
  rw [show scanFrom 0 text.toList = front ++ rest from scanned] at tiled
  have behind := tiled.behind goesOn
  rwa [Nat.zero_add] at behind

theorem toList_of_scan_eq (scanned : scan text = front ++ rest) :
    text.toList = front.flatMap Token.text ++ rest.flatMap Token.text := by
  rw [← List.flatMap_append, ← scanned]
  exact (tiled_scanFrom 0 text.toList).flatMap_text.symm

/-- The characters from the start of some tokens to the start of those behind them. -/
theorem source_of_scan_eq (scanned : scan text = front ++ (part ++ rest)) :
    source text (front.flatMap Token.text).length
        ((front ++ part).flatMap Token.text).length =
      String.ofList (part.flatMap Token.text) := by
  rw [source, toList_of_scan_eq scanned, List.flatMap_append, List.flatMap_append,
    ← List.append_assoc, List.take_left, List.drop_left]

end

/-- Some tokens of a text, the first of which stands at a position. -/
structure At (text : String) (position : Nat) (tokens : List Token) : Prop where
  behind : ∃ front, front.length = position ∧ scan text = front ++ tokens
  nonempty : tokens ≠ []

namespace At

variable {text : String} {position : Nat} {token next : Token}
  {part rest more : List Token}

theorem exists_cons {tokens : List Token} (here : At text position tokens) :
    ∃ token rest, tokens = token :: rest :=
  List.exists_cons_of_ne_nil here.nonempty

theorem length_pos {tokens : List Token} (here : At text position tokens) :
    0 < tokens.length :=
  List.length_pos_iff.mpr here.nonempty

/-- Only behind the end of the input there is no token. -/
theorem tail (here : At text position (token :: rest))
    (goesOn : token.kind ≠ .endOfInput) : At text (position + 1) rest := by
  obtain ⟨⟨front, rfl, scanned⟩, -⟩ := here
  refine ⟨⟨front ++ [token], by simp, by simp [scanned]⟩, ?_⟩
  rintro rfl
  obtain ⟨body, stop, split, stops, -⟩ := scanFrom_eq_append 0 text.toList
  obtain ⟨-, same⟩ := List.append_inj' (scanned.symm.trans split) rfl
  rw [(List.cons.inj same).1] at goesOn
  exact goesOn stops

theorem getElem? (here : At text position (token :: rest)) :
    (scan text)[position]? = some token := by
  obtain ⟨⟨front, rfl, scanned⟩, -⟩ := here
  rw [scanned, List.getElem?_append_right (Nat.le_refl _), Nat.sub_self]
  rfl

theorem length_le {tokens : List Token} (here : At text position tokens) :
    tokens.length ≤ (scan text).length := by
  obtain ⟨⟨front, -, scanned⟩, -⟩ := here
  rw [scanned, List.length_append]
  exact Nat.le_add_left _ _

theorem stop_eq_start (here : At text position (token :: next :: more)) :
    token.stop = next.start := by
  obtain ⟨⟨front, -, scanned⟩, -⟩ := here
  have chain := (tiled_of_scan_eq scanned (List.cons_ne_nil _ _)).isChain
  exact (List.isChain_cons_cons.mp chain).1

/-- The characters from the start of a token to that of a later one are those that the
tokens between were read from. -/
theorem source_eq (here : At text position (token :: rest))
    (split : token :: rest = part ++ next :: more) :
    token.start ≤ next.start ∧ next.start ≤ text.length ∧
      source text token.start next.start = String.ofList (part.flatMap Token.text) := by
  obtain ⟨⟨front, -, scanned⟩, -⟩ := here
  have start := (tiled_of_scan_eq scanned (List.cons_ne_nil _ _)).head_start
  rw [split] at scanned
  have characters := source_of_scan_eq scanned
  have whole := toList_of_scan_eq scanned
  rw [← List.append_assoc] at scanned
  have later := (tiled_of_scan_eq scanned (List.cons_ne_nil _ _)).head_start
  rw [← start, ← later] at characters
  refine ⟨?_, ?_, characters⟩
  · rw [start, later, List.flatMap_append, List.length_append]
    exact Nat.le_add_right _ _
  · rw [later, ← String.length_toList, whole, List.flatMap_append, List.flatMap_append]
    simp only [List.length_append]
    omega

/-- Only the end of the input may have no characters. -/
theorem text_nonempty (here : At text position (token :: rest))
    (goesOn : token.kind ≠ .endOfInput) : token.text ≠ [] := by
  obtain ⟨⟨front, -, scanned⟩, -⟩ := here
  exact (tiled_of_scan_eq scanned (List.cons_ne_nil _ _)).head_text goesOn

/-- The characters of a token, except some at its front. -/
theorem source_own (here : At text position (token :: rest)) {skipped : Nat}
    (fits : skipped ≤ token.text.length) :
    token.start + skipped ≤ token.stop ∧ token.stop ≤ text.length ∧
      (source text (token.start + skipped) token.stop).toList =
        token.text.drop skipped := by
  obtain ⟨⟨front, -, scanned⟩, -⟩ := here
  have start := (tiled_of_scan_eq scanned (List.cons_ne_nil _ _)).head_start
  have whole := toList_of_scan_eq scanned
  rw [List.flatMap_cons] at whole
  refine ⟨Nat.add_le_add_left fits _, ?_, ?_⟩
  · rw [Token.stop, start, ← String.length_toList, whole]
    simp only [List.length_append]
    omega
  · rw [source, String.toList_ofList, Token.stop, start, whole, ← List.append_assoc,
      ← List.length_append, List.take_left, List.drop_append, List.drop_eq_nil_of_le
      (Nat.le_add_right _ _), List.nil_append, Nat.add_sub_cancel_left]

end At

theorem at_scan (text : String) : At text 0 (scan text) :=
  ⟨⟨[], rfl, rfl⟩, (tiled_scanFrom 0 text.toList).nonempty⟩

/-- Tokens that tile a text. -/
structure Tiles (text : String) (tokens : List Token) : Prop where
  /-- The last token, and no other one, stands for the end of the input. -/
  ends : ∃ body stop, tokens = body ++ [stop] ∧ stop.kind = .endOfInput ∧
    stop.stop = text.length ∧
    ∀ token ∈ body, token.kind ≠ .endOfInput ∧ token.start < token.stop
  starts : tokens.head?.map Token.start = some 0
  adjoins : tokens.IsChain fun token next => token.stop = next.start
  /-- A token was read from the characters between its offsets. -/
  own : ∀ token ∈ tokens,
    source text token.start token.stop = String.ofList token.text
  whole : String.join (tokens.map fun token => source text token.start token.stop) = text

theorem tiles_scan (text : String) : Tiles text (scan text) := by
  have tiled := tiled_scanFrom 0 text.toList
  have own : ∀ token ∈ scan text,
      source text token.start token.stop = String.ofList token.text := by
    intro token member
    obtain ⟨front, rest, scanned⟩ := List.append_of_mem member
    have start := (tiled_of_scan_eq scanned (List.cons_ne_nil _ _)).head_start
    have characters := @source_of_scan_eq text front [token] rest scanned
    rwa [List.flatMap_append, List.length_append, List.flatMap_singleton, ← start]
      at characters
  refine ⟨?_, ?_, tiled.isChain, own, ?_⟩
  · obtain ⟨body, stop, scanned, ends, last, others⟩ := tiled.exists_stop
    refine ⟨body, stop, scanned, ends, ?_, fun token member => ?_⟩
    · rw [last, Nat.zero_add, String.length_toList]
    · obtain ⟨goesOn, nonempty⟩ := others token member
      have positive := List.length_pos_iff.mpr nonempty
      exact ⟨goesOn, Nat.lt_add_of_pos_right positive⟩
  · cases scanned : scan text with
    | nil => exact absurd scanned tiled.nonempty
    | cons token more =>
        exact congrArg some (start_of_scanFrom scanned)
  · rw [List.map_congr_left own, ← String.toList_inj, String.toList_join,
      List.flatMap_map]
    simp only [String.toList_ofList]
    exact tiled.flatMap_text

end Token

end TreeSelectors
