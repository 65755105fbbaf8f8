import TreeSelectors.Proofs.Selector.Parsing
import TreeSelectors.Proofs.Selector.Shape

/-!
# Derived selectors are well-formed

Whatever is derived from tokens with names that are not empty is well-formed,
provided that the aliases stand for such selectors.  What has to be known about
the aliases for that is kept along the way.
-/

namespace TreeSelectors

namespace Grammar

/-- A well-formed selector whose names are not empty. -/
def Sound (relative : Bool) (selector : Selector) : Prop :=
  selector ≠ [] ∧ Selector.Formed relative selector ∧
    ∀ name ∈ Selector.names selector, name ≠ ""

/-- The names that tokens stand for are not empty. -/
def Named (tokens : List Token) : Prop :=
  ∀ token ∈ tokens, ∀ name ∈ Token.name? token.kind, name ≠ ""

@[simp] theorem named_append_iff {first second : List Token} :
    Named (first ++ second) ↔ Named first ∧ Named second :=
  List.forall_mem_append

theorem Named.tail {token : Token} {tokens : List Token}
    (named : Named (token :: tokens)) : Named tokens :=
  fun other member => named other (List.mem_cons_of_mem _ member)

theorem Named.ident {token : Token} {tokens : List Token} {name : String}
    (named : Named tokens) (member : token ∈ tokens) (kind : token.kind = .ident name) :
    name ≠ "" :=
  named token member name (by simp [Token.name?, kind])

private theorem foldCase_ne_empty {name : String} (nonempty : name ≠ "") :
    Text.foldCase name ≠ "" := by
  intro empty
  have letters : name.toList.map Char.toLower = [] := by
    simpa [Text.foldCase] using empty
  exact nonempty (String.toList_eq_nil_iff.mp (List.map_eq_nil_iff.mp letters))

private theorem Operator.ne_present {segment : List Token} {operator : AttributeOperator}
    (derived : Operator segment operator) : operator ≠ .present := by
  cases derived with
  | equals => simp
  | signed _ found =>
      rintro rfl
      unfold Selector.Parser.operatorOf? at found
      split at found
      all_goals cases found

theorem Attribute.sound {segment : List Token} {test : AttributeTest}
    (derived : Attribute segment test) (named : Named segment) :
    test.Formed ∧ test.name ≠ "" := by
  cases derived with
  | present _ kind =>
      exact ⟨⟨rfl, rfl⟩, named.ident (by simp) kind⟩
  | comparison _ kind _ compared =>
      cases compared with
      | compare compares =>
          exact ⟨compares.ne_present, named.ident (by simp) kind⟩

section

variable {σ : Type} {setting : Setting σ} {holds : σ → Prop} {known later : σ}
  {segment : List Token}

/-- What is known keeps a property while the source is asked, and the aliases
stand for sound selectors then. -/
def KeepsSound (source : AliasSource σ) (holds : σ → Prop) : Prop :=
  ∀ {name : String} {known later : σ} {selector : Selector}, holds known →
    (source.expand name).run known = .ok (some selector, later) →
      holds later ∧ Sound false selector

/-- The arguments of a setting are sound, and keep the property. -/
def SoundArguments (setting : Setting σ) (holds : σ → Prop) : Prop :=
  ∀ {relative : Bool} {known later : σ} {segment : List Token} {selector : Selector},
    setting.argument relative known segment selector later → holds known →
      Named segment → holds later ∧ Sound relative selector

variable (keeps : KeepsSound setting.aliases holds)
  (arguments : SoundArguments setting holds)

include keeps arguments

theorem Pseudo.sound {simple : Simple}
    (derived : Pseudo setting known segment simple later) (start : holds known)
    (named : Named segment) :
    holds later ∧ simple.isLeading = false ∧ simple.Formed ∧
      ∀ name ∈ simple.names, name ≠ "" := by
  cases derived with
  | element _ kind =>
      have nonempty := foldCase_ne_empty (named.ident (by simp) kind)
      exact ⟨start, rfl, Text.foldCase_foldCase _,
        by simpa [Simple.names] using nonempty⟩
  | legacyElement kind =>
      have nonempty := foldCase_ne_empty (named.ident (by simp) kind)
      exact ⟨start, rfl, Text.foldCase_foldCase _,
        by simpa [Simple.names] using nonempty⟩
  | plain => exact ⟨start, rfl, trivial, by simp [Simple.names]⟩
  | abbreviation _ _ _ _ _ expanded =>
      obtain ⟨after, nonempty, formed, names⟩ := keeps start expanded
      exact ⟨after, rfl, ⟨nonempty, by simpa using formed⟩, names⟩
  | nth => exact ⟨start, rfl, trivial, by simp [Simple.names]⟩
  | functional _ _ argued =>
      obtain ⟨after, nonempty, formed, names⟩ :=
        arguments argued start named.tail
      exact ⟨after, rfl, ⟨nonempty, formed⟩, names⟩

theorem Condition.sound {simple : Simple}
    (derived : Condition setting known segment simple later) (start : holds known)
    (named : Named segment) :
    holds later ∧ simple.isLeading = false ∧ simple.Formed ∧
      ∀ name ∈ simple.names, name ≠ "" := by
  cases derived with
  | @id token name kind =>
      have nonempty : name ≠ "" :=
        named token List.mem_cons_self name (by simp [Token.name?, kind])
      exact ⟨start, rfl, trivial, by simpa [Simple.names] using nonempty⟩
  | className _ kind =>
      have nonempty := named.ident (by simp) kind
      exact ⟨start, rfl, trivial, by simpa [Simple.names] using nonempty⟩
  | «attribute» _ derived =>
      obtain ⟨formed, nonempty⟩ := derived.sound named.tail
      exact ⟨start, rfl, formed, by simpa [Simple.names] using nonempty⟩
  | pseudo _ derived => exact derived.sound keeps arguments start named.tail

theorem First.sound {simple : Simple}
    (derived : First setting known segment simple later) (start : holds known)
    (named : Named segment) :
    holds later ∧ simple.Formed ∧ ∀ name ∈ simple.names, name ≠ "" := by
  cases derived with
  | type kind =>
      have nonempty := named.ident (by simp) kind
      exact ⟨start, trivial, by simpa [Simple.names] using nonempty⟩
  | universal => exact ⟨start, trivial, by simp [Simple.names]⟩
  | condition derived =>
      obtain ⟨after, -, sound⟩ := derived.sound keeps arguments start named
      exact ⟨after, sound⟩

theorem Conditions.sound {conditions : List Simple}
    (derived : Conditions setting known segment conditions later)
    (start : holds known) (named : Named segment) :
    holds later ∧ Compound.FormedMore conditions ∧
      ∀ name ∈ Compound.names conditions, name ≠ "" := by
  induction derived with
  | nil => exact ⟨start, trivial, by simp [Compound.names]⟩
  | cons first _ induction =>
      obtain ⟨namedFirst, namedRest⟩ := named_append_iff.mp named
      obtain ⟨between, following, formed, names⟩ :=
        first.sound keeps arguments start namedFirst
      obtain ⟨after, formedMore, namesMore⟩ := induction between namedRest
      exact ⟨after, ⟨following, formed, formedMore⟩,
        List.forall_mem_append.mpr ⟨names, namesMore⟩⟩

theorem CompoundOf.sound {compound : Compound}
    (derived : CompoundOf setting known segment compound later)
    (start : holds known) (named : Named segment) :
    holds later ∧ Compound.Formed compound ∧
      ∀ name ∈ Compound.names compound, name ≠ "" := by
  cases derived with
  | conditions first rest =>
      obtain ⟨namedFirst, namedRest⟩ := named_append_iff.mp named
      obtain ⟨between, formed, names⟩ := first.sound keeps arguments start namedFirst
      obtain ⟨after, formedMore, namesMore⟩ :=
        rest.sound keeps arguments between namedRest
      exact ⟨after, ⟨formed, formedMore⟩,
        List.forall_mem_append.mpr ⟨names, namesMore⟩⟩

/-- The compounds that a chain has so far stay sound with every link. -/
theorem Links.sound {subject final : Compound}
    {left leftmost : List (Combinator × Compound)}
    (derived : Links setting known subject left segment final leftmost later)
    (start : holds known) (named : Named segment)
    (formed : Compound.Formed subject ∧ Chain.FormedLeft left)
    (names : (∀ name ∈ Compound.names subject, name ≠ "") ∧
      ∀ name ∈ Chain.namesLeft left, name ≠ "") :
    holds later ∧ (Compound.Formed final ∧ Chain.FormedLeft leftmost) ∧
      (∀ name ∈ Compound.names final, name ≠ "") ∧
      ∀ name ∈ Chain.namesLeft leftmost, name ≠ "" := by
  induction derived with
  | nil => exact ⟨start, formed, names⟩
  | cons _ compound _ induction =>
      obtain ⟨namedLink, namedRest⟩ := named_append_iff.mp named
      obtain ⟨-, namedCompound⟩ := named_append_iff.mp namedLink
      obtain ⟨between, formedNext, namesNext⟩ :=
        compound.sound keeps arguments start namedCompound
      exact induction between namedRest ⟨formedNext, formed⟩
        ⟨namesNext, List.forall_mem_append.mpr names⟩

theorem ChainOf.sound {relative : Bool} {chain : Chain}
    (derived : ChainOf setting relative known segment chain later)
    (start : holds known) (named : Named segment) :
    holds later ∧ chain.Formed relative ∧ ∀ name ∈ chain.names, name ≠ "" := by
  cases derived with
  | links anchored first linked =>
      obtain ⟨namedStart, namedLinks⟩ := named_append_iff.mp named
      obtain ⟨-, namedFirst⟩ := named_append_iff.mp namedStart
      obtain ⟨between, formed, names⟩ := first.sound keeps arguments start namedFirst
      obtain ⟨after, ⟨formed, formedLeft⟩, names, namesLeft⟩ :=
        linked.sound keeps arguments between namedLinks ⟨formed, trivial⟩
          ⟨names, by simp [Chain.namesLeft]⟩
      refine ⟨after, ⟨formed, formedLeft, ?_⟩,
        List.forall_mem_append.mpr ⟨names, namesLeft⟩⟩
      cases anchored with
      | none => rfl
      | implied => rfl
      | signed => rfl

theorem ListOf.sound {relative : Bool} {selector : Selector}
    (derived : ListOf setting relative known segment selector later)
    (start : holds known) (named : Named segment) :
    holds later ∧ Sound relative selector := by
  induction derived with
  | single _ chain =>
      obtain ⟨namedStart, -⟩ := named_append_iff.mp named
      obtain ⟨-, namedChain⟩ := named_append_iff.mp namedStart
      obtain ⟨after, formed, names⟩ := chain.sound keeps arguments start namedChain
      exact ⟨after, List.cons_ne_nil _ _, ⟨formed, trivial⟩,
        by simpa [Selector.names] using names⟩
  | cons _ chain _ _ _ induction =>
      obtain ⟨namedStart, namedRest⟩ := named_append_iff.mp named
      obtain ⟨namedStart, -⟩ := named_append_iff.mp namedStart
      obtain ⟨-, namedChain⟩ := named_append_iff.mp namedStart
      obtain ⟨between, formed, names⟩ := chain.sound keeps arguments start namedChain
      obtain ⟨after, -, formedMore, namesMore⟩ := induction between namedRest.tail
      exact ⟨after, List.cons_ne_nil _ _, ⟨formed, formedMore⟩,
        List.forall_mem_append.mpr ⟨names, namesMore⟩⟩

end

section

variable {σ : Type} {aliases : AliasSource σ} {holds : σ → Prop}

private theorem soundArguments (keeps : KeepsSound aliases holds) (levels : Nat) :
    SoundArguments ⟨aliases, Argument aliases levels⟩ holds := by
  induction levels with
  | zero =>
      intro relative known later segment selector impossible
      exact impossible.elim
  | succ levels induction =>
      intro relative known later _ selector argument start named
      obtain ⟨list, close, rfl, -, listed⟩ := argument
      exact listed.sound keeps induction start (named_append_iff.mp named).1

theorem Whole.sound (keeps : KeepsSound aliases holds) {levels : Nat}
    {known later : σ} {segment : List Token} {selector : Selector}
    (derived : Whole aliases levels known segment selector later)
    (start : holds known) (named : Named segment) :
    holds later ∧ Sound false selector :=
  ListOf.sound keeps (soundArguments keeps levels) derived start named

/-- What is read is well-formed. -/
theorem sound_of_read (keeps : KeepsSound aliases holds) {maxNesting : Nat}
    {text : String} {remarks : List Remark} {known later : σ} {selector : Selector}
    (read : Reading.Yields (Selector.read aliases maxNesting text) remarks known
      selector later)
    (start : holds known) : holds later ∧ Sound false selector := by
  obtain ⟨segment, rest, scanned, -, derived⟩ :=
    Selector.Parser.readAll_yields_iff.mp read
  have named := Token.name?_scanFrom 0 text.toList
  rw [Token.scan] at scanned
  rw [scanned] at named
  exact derived.sound keeps start (named_append_iff.mp named).1

end

end Grammar

end TreeSelectors
