import TreeSelectors.Proofs.Token.Following

/-!
# Comments between tokens

A comment belongs to the token after it.  So a comment that is inserted in front of a
token leaves all kinds of tokens as they are, as long as it is read as a comment there:
behind a quoted value that is not closed, or behind a backslash, it is not.
-/

namespace TreeSelectors

namespace Token

open Text

/-- A comment with a body. -/
def comment (body : List Char) : List Char :=
  '/' :: '*' :: body ++ ['*', '/']

/-! ## Skipping comments -/

/-- Whether a text starts with a comment, which need not be closed. -/
def startsComment : List Char → Bool
  | '/' :: '*' :: _ => true
  | _ => false

variable {body text rest : List Char} {char : Char}

private theorem afterComment_of_closed (closed : ¬ ['*', '/'] <:+: body)
    (rest : List Char) :
    afterComment (body ++ '*' :: '/' :: rest) = rest := by
  induction body with
  | nil => rfl
  | cons char more induction =>
      have early (after : List Char) (star : char = '*')
          (slash : more ++ '*' :: '/' :: rest = '/' :: after) : False := by
        cases more with
        | nil => cases slash
        | cons next others =>
            obtain rfl : next = '/' := (List.cons.inj slash).1
            subst star
            exact closed (List.prefix_append ['*', '/'] others).isInfix
      rw [List.cons_append, afterComment]
      · exact induction fun inside => closed (inside.trans (List.suffix_cons _ _).isInfix)
      · exact early

/-- A comment that is followed by something is closed. -/
theorem afterComment_append (text : List Char) (goesOn : afterComment text ≠ []) :
    ∃ part, part ≠ [] ∧ text = part ++ afterComment text ∧
      ∀ other, afterComment (part ++ other) = other := by
  fun_induction afterComment text with
  | case1 rest => exact ⟨['*', '/'], List.cons_ne_nil _ _, rfl, fun other => rfl⟩
  | case2 char rest open_ induction =>
      obtain ⟨part, nonempty, same, reads⟩ := induction goesOn
      refine ⟨char :: part, List.cons_ne_nil _ _, congrArg (char :: ·) same,
        fun other => ?_⟩
      rw [List.cons_append, afterComment, reads other]
      intro after star slash
      cases part with
      | nil => exact nonempty rfl
      | cons next others =>
          obtain rfl : next = '/' := (List.cons.inj slash).1
          exact open_ _ star same
  | case3 => exact absurd rfl goesOn

theorem startsComment_cons_iff :
    startsComment (char :: rest) = true ↔ char = '/' ∧ rest.head? = some '*' := by
  unfold startsComment
  split
  · rename_i same
    cases same
    simp
  · rename_i other
    refine iff_of_false (by simp) fun comment => ?_
    obtain ⟨rfl, star⟩ := comment
    exact other rest.tail (congrArg ('/' :: ·) (List.eq_cons_of_mem_head? star))

private theorem skipComments_of_not_startsComment (plain : startsComment text = false) :
    skipComments text = text := by
  rw [skipComments]
  rintro rest rfl
  cases plain

private theorem skipComments_comment (closed : ¬ ['*', '/'] <:+: body)
    (text : List Char) :
    skipComments (comment body ++ text) = skipComments text := by
  have opened : comment body ++ text = '/' :: '*' :: (body ++ '*' :: '/' :: text) := by
    simp [comment]
  rw [opened, skipComments, afterComment_of_closed closed]

/-- What follows the comments may be replaced by anything that is no comment. -/
theorem skipComments_append (skipped : skipComments text = char :: rest) :
    startsComment (char :: rest) = false ∧ ∃ part, text = part ++ char :: rest ∧
      ∀ other, startsComment other = false → skipComments (part ++ other) = other := by
  fun_induction skipComments text with
  | case1 inside induction =>
      obtain ⟨plain, part, same, skips⟩ := induction skipped
      have goesOn : afterComment inside ≠ [] := by
        rw [same]
        exact List.append_ne_nil_of_right_ne_nil _ (List.cons_ne_nil _ _)
      obtain ⟨first, -, split, reads⟩ := afterComment_append inside goesOn
      refine ⟨plain, '/' :: '*' :: (first ++ part), ?_, fun other noComment => ?_⟩
      · rw [List.cons_append, List.cons_append, List.append_assoc, ← same, ← split]
      · rw [List.cons_append, List.cons_append, List.append_assoc, skipComments, reads,
          skips other noComment]
  | case2 text noComment =>
      subst skipped
      refine ⟨?_, [], rfl, fun other plain => skipComments_of_not_startsComment plain⟩
      unfold startsComment
      split
      · rename_i after same
        exact (noComment after same).elim
      · rfl

/-! ## All tokens -/

/-- The first token of a text that has more: the characters that it was read from, and
what may stand behind them. -/
theorem scanFrom_cons {start : Nat} {token next : Token} {more : List Token}
    (scanned : scanFrom start text = token :: next :: more) :
    ∃ rest, text = token.text ++ rest ∧ token.start = start ∧ token.text ≠ [] ∧
      (token.text = ['\\'] → token.kind = .delim '\\') ∧
      scanFrom (start + token.text.length) rest = next :: more ∧
      ∀ other, MayFollow token.kind rest other →
        scanFrom start (token.text ++ other) =
          token :: scanFrom (start + token.text.length) other := by
  cases skipped : skipComments text with
  | nil =>
      rw [scanFrom_of_skipComments_nil skipped] at scanned
      cases scanned
  | cons char tail =>
      obtain ⟨plain, front, rfl, skips⟩ := skipComments_append skipped
      obtain ⟨part, same, reads⟩ := readsAlike char tail
      cases read : readKind char tail with
      | mk kind rest =>
          rw [read] at same reads
          subst same
          rw [scanFrom_eq_cons skipped read] at scanned
          obtain ⟨rfl, following⟩ := List.cons.inj scanned
          refine ⟨rest, by simp, rfl, by simp, fun backslash => ?_, following,
            fun other follows => ?_⟩
          · obtain ⟨rfl, rfl, rfl⟩ : front = [] ∧ char = '\\' ∧ part = [] := by
              cases front with
              | nil => simpa using backslash
              | cons first others => simp at backslash
            exact readKind_backslash read
          · have whole : front ++ char :: part ++ other =
                front ++ char :: (part ++ other) := by
              simp
            rw [whole]
            refine scanFrom_eq_cons (skips _ ?_) (reads other follows)
            refine Bool.eq_false_iff.mpr fun comment => Bool.eq_false_iff.mp plain ?_
            obtain ⟨slash, star⟩ := startsComment_cons_iff.mp comment
            refine startsComment_cons_iff.mpr ⟨slash, ?_⟩
            cases part with
            | nil => exact follows.star star
            | cons next others => exact star

/-! ## Inserting a comment -/

private theorem scanFrom_comment (closed : ¬ ['*', '/'] <:+: body) {start : Nat}
    {next : Token}
    {after : List Token} (scanned : scanFrom start text = next :: after) :
    scanFrom start (comment body ++ text) =
      { next with text := comment body ++ next.text } ::
        after.map (shift (comment body).length) := by
  have skips := skipComments_comment closed text
  cases skipped : skipComments text with
  | nil =>
      rw [skipped] at skips
      rw [scanFrom_of_skipComments_nil skipped] at scanned
      cases scanned
      rw [scanFrom_of_skipComments_nil skips]
      rfl
  | cons char tail =>
      rw [skipped] at skips
      obtain ⟨-, front, rfl, -⟩ := skipComments_append skipped
      obtain ⟨part, same, -⟩ := readsAlike char tail
      cases read : readKind char tail with
      | mk kind rest =>
          rw [read] at same
          subst same
          rw [scanFrom_eq_cons skipped read] at scanned
          obtain ⟨rfl, rfl⟩ := List.cons.inj scanned
          have split : comment body ++ (front ++ char :: (part ++ rest)) =
              (comment body ++ front) ++ char :: (part ++ rest) :=
            (List.append_assoc _ _ _).symm
          rw [split] at skips ⊢
          rw [scanFrom_eq_cons skips read, ← scanFrom_shift]
          simp only [List.append_assoc, List.length_append]
          congr 2
          omega

theorem MayFollow.of_alike {kind : TokenKind} {other : List Char}
    (head : other.head? = rest.head?) (name : startsName other = startsName rest) :
    MayFollow kind rest other where
  name starts := name ▸ starts
  blank starts := by rwa [startsWith, ← head]
  paren starts := head ▸ starts
  star starts := head ▸ starts
  unfinished _ := head

theorem MayFollow.comment {kind : TokenKind} (finished : ¬ Unfinished kind)
    (rest body other : List Char) : MayFollow kind rest (comment body ++ other) where
  name starts := by cases starts
  blank starts := by cases starts
  paren starts := by cases starts
  star starts := by cases starts
  unfinished special := (finished special).elim

/-- What a text starts with shows in its first two characters, and only if the first one
is a backslash does the second one matter. -/
theorem startsName_append {part rest other : List Char} (nonempty : part ≠ [])
    (escapes : part = ['\\'] → other.head? = rest.head?) :
    startsName (part ++ other) = startsName (part ++ rest) := by
  cases part with
  | nil => exact absurd rfl nonempty
  | cons char more =>
      by_cases backslash : char = '\\'
      · subst backslash
        cases more with
        | cons next others => rfl
        | nil =>
            have head := escapes rfl
            cases other with
            | nil => rw [List.head?_eq_none_iff.mp head.symm]
            | cons next others =>
                obtain ⟨same, rfl⟩ := List.head?_eq_some_iff.mp head.symm
                rfl
      · simp only [List.cons_append, startsName_cons backslash]

/-- The tokens in front of a comment are those that were there without it: by induction
on them, each stays what it is since what follows it starts alike. -/
theorem scanFrom_insert (body : List Char) {start : Nat} {before after : List Token}
    {next : Token} (scanned : scanFrom start text = before ++ next :: after)
    (finished : ∀ last ∈ before.getLast?, ¬ Unfinished last.kind) :
    ∃ front back, text = front ++ back ∧ start + front.length = next.start ∧
      scanFrom next.start back = next :: after ∧
      scanFrom start (front ++ (comment body ++ back)) =
        before ++ scanFrom next.start (comment body ++ back) ∧
      (before ≠ [] → front ≠ [] ∧ startsName (front ++ (comment body ++ back)) =
        startsName (front ++ back)) := by
  induction before generalizing start text with
  | nil =>
      have same : next.start = start := start_of_scanFrom scanned
      refine ⟨[], text, rfl, same.symm, same ▸ scanned, same ▸ rfl,
        fun impossible => absurd rfl impossible⟩
  | cons token others induction =>
      obtain ⟨following, more, split⟩ : ∃ following more,
          others ++ next :: after = following :: more := by
        cases others with
        | nil => exact ⟨_, _, rfl⟩
        | cons first rest => exact ⟨_, _, rfl⟩
      rw [List.cons_append, split] at scanned
      obtain ⟨rest, rfl, rfl, nonempty, backslash, scannedRest, reads⟩ :=
        scanFrom_cons scanned
      rw [← split] at scannedRest
      obtain ⟨front, back, rfl, offset, scannedBack, inserted, alike⟩ :=
        induction scannedRest fun last member => finished last (by
          cases others with
          | nil => cases member
          | cons first rest => exact member)
      refine ⟨token.text ++ front, back, by rw [List.append_assoc], ?_, scannedBack, ?_,
        fun _ => ⟨List.append_ne_nil_of_left_ne_nil nonempty _, ?_⟩⟩
      · rw [List.length_append, ← Nat.add_assoc, offset]
      · have follows : MayFollow token.kind (front ++ back)
            (front ++ (comment body ++ back)) := by
          cases others with
          | nil =>
              have empty : front = [] := by
                have same := start_of_scanFrom scannedRest
                exact List.length_eq_zero_iff.mp (by omega)
              subst empty
              exact .comment (finished token rfl) back body back
          | cons first rest =>
              obtain ⟨goesOn, name⟩ := alike (List.cons_ne_nil _ _)
              refine .of_alike ?_ name
              rw [List.head?_append_of_ne_nil _ goesOn,
                List.head?_append_of_ne_nil _ goesOn]
        rw [List.append_assoc, reads _ follows, inserted, List.cons_append]
      · rw [List.append_assoc, List.append_assoc]
        refine startsName_append nonempty fun escapes => ?_
        -- A backslash by itself is not the last token.
        cases others with
        | nil => exact (finished token rfl (Or.inr (backslash escapes))).elim
        | cons first rest =>
            have goesOn := (alike (List.cons_ne_nil _ _)).1
            rw [List.head?_append_of_ne_nil _ goesOn,
              List.head?_append_of_ne_nil _ goesOn]

/-- What becomes of a token when characters are inserted at an offset: if they are
inserted in front of it, they belong to it. -/
def respell (inserted : List Char) (offset : Nat) (token : Token) : Token :=
  if token.start < offset then token
  else if token.start = offset then { token with text := inserted ++ token.text }
  else shift inserted.length token

/-- A text with a comment inserted at an offset. -/
def withComment (text : String) (body : List Char) (offset : Nat) : String :=
  String.ofList (text.toList.take offset ++ comment body ++ text.toList.drop offset)

/-- A comment in front of a token changes no kind of token. -/
theorem scan_withComment {text : String} {before after : List Token} {next : Token}
    (scanned : scan text = before ++ next :: after)
    (finished : ∀ last ∈ before.getLast?, ¬ Unfinished last.kind)
    (closed : ¬ ['*', '/'] <:+: body) :
    scan (withComment text body next.start) =
      (scan text).map (respell (comment body) next.start) := by
  obtain ⟨front, back, split, offset, scannedBack, inserted, -⟩ :=
    scanFrom_insert body scanned finished
  have spelled : (withComment text body next.start).toList =
      front ++ (comment body ++ back) := by
    rw [Nat.zero_add] at offset
    simp [withComment, split, ← offset]
  have increasing := (scanFrom_increasing 0 text.toList).2
  rw [show scanFrom 0 text.toList = before ++ next :: after from scanned,
    List.pairwise_append, List.pairwise_cons] at increasing
  obtain ⟨-, ⟨later, -⟩, earlier⟩ := increasing
  have unchanged : before.map (respell (comment body) next.start) = before := by
    refine (List.map_congr_left fun token member => ?_).trans (List.map_id _)
    rw [respell, if_pos (earlier token member next List.mem_cons_self), id]
  have moved : after.map (respell (comment body) next.start) =
      after.map (shift (comment body).length) := by
    refine List.map_congr_left fun token member => ?_
    have follows := later token member
    rw [respell, if_neg (Nat.lt_asymm follows), if_neg (Nat.ne_of_gt follows)]
  rw [scanned, scan, spelled, inserted, scanFrom_comment closed scannedBack,
    List.map_append, List.map_cons, unchanged, moved, respell,
    if_neg (Nat.lt_irrefl _), if_pos rfl]

end Token

end TreeSelectors
