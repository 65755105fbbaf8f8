import TreeSelectors.Proofs.Answer
import TreeSelectors.Proofs.Selector.Breaks

/-!
# Readings that break off

Two readings go through the tokens in front of a break alike, with the same progress,
whether the text ends there or goes on with a broken text.  If readings do so, then they
also do one behind the other; so only the readers of single tokens have to be looked at.
-/

namespace TreeSelectors

open Grammar Token

namespace Reading

variable {σ α β : Type}

/-- What a reading ends with: a value and the progress that was made, or a failure. -/
def ends (reading : Reading σ α) (progress : Progress σ) :
    Except ParseError (α × Progress σ) :=
  match reading progress with
  | .ok value final => .ok (value, final)
  | .error failure _ => .error failure

@[simp] theorem ends_bind (reading : Reading σ α) (next : α → Reading σ β)
    (progress : Progress σ) :
    (reading >>= next).ends progress =
      reading.ends progress >>= fun result => (next result.1).ends result.2 := by
  simp only [ends, bind, EStateM.bind, Except.bind]
  cases reading progress with
  | ok value final => rfl
  | error failure final => rfl

@[simp] theorem ends_pure (value : α) (progress : Progress σ) :
    (pure value : Reading σ α).ends progress = .ok (value, progress) :=
  rfl

@[simp] theorem ends_throw (failure : ParseError) (progress : Progress σ) :
    (throw failure : Reading σ α).ends progress = .error failure :=
  rfl

@[simp] theorem ends_ofExcept (outcome : Except ParseError α) (progress : Progress σ) :
    (ofExcept outcome : Reading σ α).ends progress =
      outcome >>= fun value => .ok (value, progress) := by
  cases outcome with
  | ok value => rfl
  | error failure => rfl

@[simp] theorem ends_expand (source : AliasSource σ) (name : String)
    (progress : Progress σ) :
    (expand source name).ends progress =
      (source.expand name).run progress.aliases >>= fun answer =>
        .ok (answer.1, { progress with aliases := answer.2 }) := by
  simp only [ends, expand, bind, Except.bind]
  cases (source.expand name).run progress.aliases with
  | error failure => rfl
  | ok answer => rfl

end Reading

namespace Break

variable {σ α β γ δ : Type} {left right leftNext rightNext : List Token → Prop}

/-- Both readings have passed the same segment of the front. -/
inductive Passed (cut : Break) (body : List Token) (progress : Progress σ) :
    (α × { rest // left rest }) × Progress σ →
      (α × { rest // right rest }) × Progress σ → Prop where
  | intro {segment remaining : List Token} {value : α} {final : Progress σ}
      {fits : left (remaining ++ [cut.stop])}
      {fitsOther : right (remaining ++ cut.bad :: cut.more)} :
      body = segment ++ remaining → Passes segment progress.remarks final.remarks →
      Passed cut body progress ((value, ⟨remaining ++ [cut.stop], fits⟩), final)
        ((value, ⟨remaining ++ cut.bad :: cut.more, fitsOther⟩), final)

/-- The first reading has passed the whole front. -/
inductive Arrived (cut : Break) (body : List Token) (progress : Progress σ) :
    (α × { rest // left rest }) × Progress σ → Prop where
  | intro {value : α} {final : Progress σ} {fits : left [cut.stop]} :
      Passes body progress.remarks final.remarks →
      Arrived cut body progress ((value, ⟨[cut.stop], fits⟩), final)

/-- No reader goes on where it is stuck. -/
theorem Outcomes.stuck {cut : Break} {opened segment remaining : List Token}
    {arrives : α → Prop} {same : α → β → Prop} (closes : Closes segment)
    (goesOn : GoesOn (segment ++ remaining)) :
    cut.Outcomes (Lacks opened (segment ++ remaining)) (Faults (segment ++ remaining))
      arrives same
      (.error (ParseError.atToken (opened.head?.map Token.start)
        (remaining ++ [cut.stop])))
      (.error (ParseError.atToken (opened.head?.map Token.start)
        (remaining ++ cut.bad :: cut.more))) := by
  cases remaining with
  | nil =>
      rw [List.nil_append, List.nil_append, cut.atToken_stop, cut.atToken_bad,
        List.append_nil]
      have lacks : Lacks opened segment _ := .atEnd
      rw [closes opened] at lacks
      exact .lacking lacks
  | cons token rest =>
      have goes := goesOn.behind token List.mem_cons_self
      rw [List.cons_append, List.cons_append, ParseError.atToken_cons goes,
        ParseError.atToken_cons goes]
      exact .faulty (.token (List.mem_append_right _ List.mem_cons_self))

/-- Two readings that go through the front alike while some functions are open.  Whether
the first one may end at the end of the text depends on what is read. -/
def Goes (cut : Break) (mayEnd : Bool) (opened body : List Token)
    (first : Reading σ (α × { rest // left rest }))
    (second : Reading σ (α × { rest // right rest })) : Prop :=
  GoesOn body → ∀ progress, cut.Outcomes (Lacks opened body) (Faults body)
    (fun value => mayEnd = true ∧ cut.Arrived body progress value)
    (cut.Passed body progress) (first.ends progress) (second.ends progress)

namespace Goes

variable {cut : Break} {mayEnd : Bool} {opened body segment remaining : List Token}
  {first : Reading σ (α × { rest // left rest })}
  {second : Reading σ (α × { rest // right rest })}

/-- Readings that go on behind a segment that was passed. -/
theorem behind (goes : cut.Goes mayEnd opened remaining first second)
    {before : Progress σ} {progress : Progress σ}
    (passes : Passes segment before.remarks progress.remarks)
    (goesOn : GoesOn (segment ++ remaining)) :
    cut.Outcomes (Lacks opened (segment ++ remaining)) (Faults (segment ++ remaining))
      (fun value => mayEnd = true ∧ cut.Arrived (segment ++ remaining) before value)
      (cut.Passed (segment ++ remaining) before) (first.ends progress)
      (second.ends progress) := by
  refine (goes goesOn.behind progress).mono ?_ (fun _ => .append) ?_ ?_
  · intro failure lacks
    rw [← passes.closes opened] at lacks
    exact lacks.append
  · rintro _ ⟨ends, ⟨others⟩⟩
    exact ⟨ends, .intro (passes.append others)⟩
  · rintro _ _ ⟨rfl, others⟩
    exact .intro (List.append_assoc _ _ _).symm (passes.append others)

theorem flat_behind (goes : cut.Goes mayEnd opened remaining first second)
    (flat : Flat segment) : cut.Goes mayEnd opened (segment ++ remaining) first second :=
  fun goesOn _ => goes.behind (.of_flat flat) goesOn

/-- A reading of nothing. -/
theorem rest (value : α) {fits : left (body ++ [cut.stop])}
    {fitsOther : right (body ++ cut.bad :: cut.more)} :
    cut.Goes mayEnd opened body
      (pure (value, ⟨body ++ [cut.stop], fits⟩) : Reading σ (α × { rest // left rest }))
      (pure (value, ⟨body ++ cut.bad :: cut.more, fitsOther⟩)) :=
  fun _ _ => .read (.intro rfl .nil)

/-- Where the first reading may arrive at the end, what follows has to rest there. -/
theorem bind_ends {mayEndFirst : Bool}
    {next : α × { rest // left rest } → Reading σ (β × { rest // leftNext rest })}
    {other : α × { rest // right rest } → Reading σ (β × { rest // rightNext rest })}
    (goes : cut.Goes mayEndFirst opened body first second)
    (continues : ∀ value segment remaining fits fitsOther, body = segment ++ remaining →
      cut.Goes mayEnd opened remaining (next (value, ⟨remaining ++ [cut.stop], fits⟩))
        (other (value, ⟨remaining ++ cut.bad :: cut.more, fitsOther⟩)))
    (rests : mayEndFirst = true → mayEnd = true ∧ ∀ value fits, ∃ result fitsNext,
      next (value, ⟨[cut.stop], fits⟩) = pure (result, ⟨[cut.stop], fitsNext⟩)) :
    cut.Goes mayEnd opened body (first >>= next) (second >>= other) := by
  intro goesOn progress
  rw [Reading.ends_bind, Reading.ends_bind]
  refine (goes goesOn progress).bind ?_ ?_
  · rintro _ _ ⟨rfl, passes⟩
    exact (continues _ _ _ _ _ rfl).behind passes goesOn
  · rintro _ ⟨ends, ⟨passes⟩⟩
    rename_i value _ fits
    obtain ⟨mayEnd, rests⟩ := rests ends
    obtain ⟨_, _, rested⟩ := rests value fits
    simp only [rested, Reading.ends_pure]
    exact .arrived ⟨mayEnd, .intro passes⟩

theorem bind {next : α × { rest // left rest } → Reading σ (β × { rest // leftNext rest })}
    {other : α × { rest // right rest } → Reading σ (β × { rest // rightNext rest })}
    (goes : cut.Goes false opened body first second)
    (continues : ∀ value segment remaining fits fitsOther, body = segment ++ remaining →
      cut.Goes mayEnd opened remaining (next (value, ⟨remaining ++ [cut.stop], fits⟩))
        (other (value, ⟨remaining ++ cut.bad :: cut.more, fitsOther⟩))) :
    cut.Goes mayEnd opened body (first >>= next) (second >>= other) :=
  goes.bind_ends continues nofun

/-- What is made of a value does not matter. -/
theorem map {next : α × { rest // left rest } → Reading σ (β × { rest // leftNext rest })}
    {other : α × { rest // right rest } → Reading σ (β × { rest // rightNext rest })}
    (goes : cut.Goes mayEnd opened body first second) (result : α → β)
    (maps : ∀ value rest fits, ∃ fitsNext,
      next (value, ⟨rest, fits⟩) = pure (result value, ⟨rest, fitsNext⟩))
    (mapsOther : ∀ value rest fits, ∃ fitsNext,
      other (value, ⟨rest, fits⟩) = pure (result value, ⟨rest, fitsNext⟩)) :
    cut.Goes mayEnd opened body (first >>= next) (second >>= other) := by
  refine goes.bind_ends ?_ fun ends => ⟨ends, fun value fits => ?_⟩
  · intro value _ remaining fits fitsOther _
    obtain ⟨_, mapped⟩ := maps value _ fits
    obtain ⟨_, mappedOther⟩ := mapsOther value _ fitsOther
    rw [mapped, mappedOther]
    exact .rest _
  · exact ⟨_, maps value _ fits⟩

/-- Only the first reading ends here. -/
theorem arrives (value : α) {fits : left [cut.stop]}
    (refused : ∀ progress, second.ends progress = .error (.refusing cut.bad)) :
    cut.Goes true opened []
      (pure (value, ⟨[cut.stop], fits⟩) : Reading σ (α × { rest // left rest }))
      second := by
  intro _ progress
  rw [refused]
  exact .arrived ⟨rfl, .intro .nil⟩

/-- A failure that is not about a place in the text. -/
theorem throw {failure : ParseError} (general : ¬ failure.Located) :
    cut.Goes mayEnd opened body
      (MonadExcept.throw failure : Reading σ (α × { rest // left rest }))
      (MonadExcept.throw failure : Reading σ (α × { rest // right rest })) :=
  fun _ _ => .faulty (.general general)

theorem stuck (closes : Closes segment) :
    cut.Goes mayEnd opened (segment ++ remaining)
      (MonadExcept.throw (ParseError.atToken (opened.head?.map Token.start)
        (remaining ++ [cut.stop])) : Reading σ (α × { rest // left rest }))
      (MonadExcept.throw (ParseError.atToken (opened.head?.map Token.start)
        (remaining ++ cut.bad :: cut.more)) : Reading σ (α × { rest // right rest })) :=
  fun goesOn _ => Outcomes.stuck closes goesOn

/-- A computation that does not ask for aliases, behind a front. -/
theorem ofExcept (front : List Token) {lacks : ParseError → Prop}
    {holds : List Token → Prop} {first : Except ParseError (α × { rest // left rest })}
    {second : Except ParseError (α × { rest // right rest })}
    (outcomes : GoesOn body → cut.Outcomes lacks (Faults body) (fun _ => False)
      (cut.Reads holds body) first second)
    (lacking : ∀ failure, lacks failure → Lacks opened (front ++ body) failure)
    (passes : ∀ segment before, holds segment →
      Passes (front ++ segment) before before) :
    cut.Goes false opened (front ++ body)
      (Reading.ofExcept first : Reading σ (α × { rest // left rest }))
      (Reading.ofExcept second) := by
  intro goesOn progress
  rw [Reading.ends_ofExcept, Reading.ends_ofExcept]
  refine ((outcomes goesOn.behind).mono lacking (fun _ => .append) (fun _ => id)
    fun _ _ => id).bind ?_ fun _ => False.elim
  rintro _ _ ⟨rfl, read⟩
  exact .read (.intro (List.append_assoc _ _ _).symm (passes _ _ read))

/-- A reading of no tokens of its own, which makes the remarks that a segment deserves. -/
theorem of_gives {reading : Reading σ α} {fits : left (remaining ++ [cut.stop])}
    {fitsOther : right (remaining ++ cut.bad :: cut.more)}
    (gives : ∀ progress, Gives ParseError.Located
      (fun result => Passes segment progress.remarks result.2.remarks)
      (reading.ends progress)) :
    cut.Goes false opened (segment ++ remaining)
      (do return (← reading, ⟨remaining ++ [cut.stop], fits⟩))
      (do return (← reading, ⟨remaining ++ cut.bad :: cut.more, fitsOther⟩)) := by
  intro goesOn progress
  have gives := gives progress
  rw [Reading.ends_bind, Reading.ends_bind]
  generalize reading.ends progress = result at gives
  cases result with
  | error failure => exact .faulty (.general gives)
  | ok answer => exact .read (.intro rfl gives)

end Goes

/-- Both readings have found nothing that starts here, or have passed the same segment. -/
inductive Offered (cut : Break) (body : List Token) (progress : Progress σ) :
    Option (α × { rest // left rest }) × Progress σ →
      Option (α × { rest // right rest }) × Progress σ → Prop where
  | none : Offered cut body progress (none, progress) (none, progress)
  | some {given : α × { rest // left rest }} {other : α × { rest // right rest }}
      {final finalOther : Progress σ} :
      cut.Passed body progress (given, final) (other, finalOther) →
      Offered cut body progress (some given, final) (some other, finalOther)

/-- Two readings that go through the front alike, if there is something for them. -/
def Offers (cut : Break) (opened body : List Token)
    (first : Reading σ (Option (α × { rest // left rest })))
    (second : Reading σ (Option (α × { rest // right rest }))) : Prop :=
  GoesOn body → ∀ progress, cut.Outcomes (Lacks opened body) (Faults body)
    (fun _ => False) (cut.Offered body progress) (first.ends progress)
    (second.ends progress)

section

variable {cut : Break} {mayEnd : Bool} {opened body segment remaining : List Token}

theorem Goes.offers {first : Reading σ (α × { rest // left rest })}
    {second : Reading σ (α × { rest // right rest })}
    {next : α × { rest // left rest } → Reading σ (Option (β × { rest // leftNext rest }))}
    {other : α × { rest // right rest } →
      Reading σ (Option (β × { rest // rightNext rest }))}
    (goes : cut.Goes false opened body first second) (result : α → β)
    (maps : ∀ value rest fits, ∃ fitsNext,
      next (value, ⟨rest, fits⟩) = pure (some (result value, ⟨rest, fitsNext⟩)))
    (mapsOther : ∀ value rest fits, ∃ fitsNext,
      other (value, ⟨rest, fits⟩) = pure (some (result value, ⟨rest, fitsNext⟩))) :
    cut.Offers opened body (first >>= next) (second >>= other) := by
  intro goesOn progress
  rw [Reading.ends_bind, Reading.ends_bind]
  refine (goes goesOn progress).bind ?_ ?_
  · rintro _ _ ⟨split, passes⟩
    rename_i value _ fits fitsOther
    obtain ⟨_, mapped⟩ := maps value _ fits
    obtain ⟨_, mappedOther⟩ := mapsOther value _ fitsOther
    simp only [mapped, mappedOther, Reading.ends_pure]
    exact .read (.some (.intro split passes))
  · rintro _ ⟨impossible, -⟩
    cases impossible

namespace Offers

theorem single {token : Token} (flat : Flat [token]) {value : α}
    {fits : left (remaining ++ [cut.stop])}
    {fitsOther : right (remaining ++ cut.bad :: cut.more)} :
    cut.Offers opened (token :: remaining)
      (pure (some (value, ⟨remaining ++ [cut.stop], fits⟩)) : Reading σ _)
      (pure (some (value, ⟨remaining ++ cut.bad :: cut.more, fitsOther⟩))) :=
  fun _ _ => .read (.some (.intro rfl (.of_flat flat)))

theorem nothing :
    cut.Offers opened body (pure none : Reading σ (Option (α × { rest // left rest })))
      (pure none : Reading σ (Option (α × { rest // right rest }))) :=
  fun _ _ => .read .none

theorem stuck {token : Token} :
    cut.Offers opened (token :: remaining)
      (MonadExcept.throw (ParseError.atToken (opened.head?.map Token.start)
        (token :: (remaining ++ [cut.stop]))) :
        Reading σ (Option (α × { rest // left rest })))
      (MonadExcept.throw (ParseError.atToken (opened.head?.map Token.start)
        (token :: (remaining ++ cut.bad :: cut.more))) :
        Reading σ (Option (α × { rest // right rest }))) :=
  fun goesOn _ => Outcomes.stuck flat_nil.closes goesOn

theorem bind {first : Reading σ (Option (α × { rest // left rest }))}
    {second : Reading σ (Option (α × { rest // right rest }))}
    {next : Option (α × { rest // left rest }) → Reading σ (β × { rest // leftNext rest })}
    {other : Option (α × { rest // right rest }) →
      Reading σ (β × { rest // rightNext rest })}
    (offers : cut.Offers opened body first second)
    (nothing : cut.Goes mayEnd opened body (next none) (other none))
    (continues : ∀ value segment remaining fits fitsOther, body = segment ++ remaining →
      cut.Goes mayEnd opened remaining
        (next (some (value, ⟨remaining ++ [cut.stop], fits⟩)))
        (other (some (value, ⟨remaining ++ cut.bad :: cut.more, fitsOther⟩)))) :
    cut.Goes mayEnd opened body (first >>= next) (second >>= other) := by
  intro goesOn progress
  rw [Reading.ends_bind, Reading.ends_bind]
  refine (offers goesOn progress).bind ?_ fun _ => False.elim
  rintro _ _ (_ | ⟨rfl, passes⟩)
  · exact nothing goesOn progress
  · exact (continues _ _ _ _ _ rfl).behind passes goesOn

end Offers

end

end Break

end TreeSelectors
