import TreeSelectors.Json.Reader

/-!
# The values of JSON texts

Every value of a JSON text takes a character, and another one separates it from its
neighbours or encloses them.  So a text has about half as many values as characters at
most, however deep they stand in each other.
-/

namespace TreeSelectors

namespace Json

mutual

/-- How many values a value consists of, itself included. -/
def values : Json → Nat
  | .array items => valuesOfItems items + 1
  | .object members => valuesOfMembers members + 1
  | _ => 1

def valuesOfItems : List Json → Nat
  | [] => 0
  | item :: rest => item.values + valuesOfItems rest

def valuesOfMembers : List (String × Json) → Nat
  | [] => 0
  | (_, value) :: rest => value.values + valuesOfMembers rest

end

/-- A reader of values takes two characters for each of them, but only one for the
outermost. -/
def Spends (value : ValueReader) : Prop :=
  ∀ {text : List Char} {json : Json} {rest : Fewer text},
    value text = some (json, rest) → 2 * json.values + rest.val.length ≤ text.length + 1

section

variable {value : ValueReader} (spends : Spends value) {text : List Char}

include spends

private theorem readItems_spends {items : List Json} {rest : Fewer text}
    (read : readItems value text = some (items, rest)) :
    2 * valuesOfItems items + rest.val.length < text.length := by
  fun_induction readItems value text generalizing items with
  | case1 text start within _ after fewer =>
      cases read
      simp only [valuesOfItems]
      omega
  | case2 text start within _ _ induction =>
      simp only [Option.bind_eq_bind, Option.bind_eq_some_iff] at read
      obtain ⟨⟨afterComma, comma⟩, -, ⟨item, afterItem, fewer⟩, readItem,
        ⟨items, rest, _⟩, readRest, done⟩ := read
      cases done
      have first := spends readItem
      have others := induction afterComma comma afterItem fewer readRest
      simp only [valuesOfItems] at first others ⊢
      omega

private theorem readArray_spends {items : List Json} {rest : Fewer text}
    (read : readArray value text = some (items, rest)) :
    2 * valuesOfItems items + rest.val.length ≤ text.length := by
  rw [readArray] at read
  have space := (skipSpace text).property
  dsimp only at read
  split at read
  · cases read
    simp only [valuesOfItems]
    omega
  · simp only [Option.bind_eq_bind, Option.bind_eq_some_iff] at read
    obtain ⟨⟨item, afterItem, fewer⟩, readItem, ⟨items, rest, _⟩, readRest, done⟩ := read
    cases done
    have first := spends readItem
    have others := readItems_spends spends readRest
    simp only [valuesOfItems] at first others ⊢
    omega

private theorem readMember_spends {member : String × Json} {rest : Fewer text}
    (read : readMember value text = some (member, rest)) :
    2 * member.2.values + rest.val.length < text.length := by
  rw [readMember] at read
  have space := (skipSpace text).property
  simp only [Option.bind_eq_bind, Option.bind_eq_some_iff] at read
  obtain ⟨⟨name, afterName, named⟩, -, ⟨afterColon, colon⟩, -, ⟨json, rest, _⟩,
    readJson, done⟩ := read
  cases done
  have spent := spends readJson
  have beforeColon := (skipSpace afterName).property
  dsimp only at colon spent ⊢
  omega

private theorem readMembers_spends {members : List (String × Json)} {rest : Fewer text}
    (read : readMembers value text = some (members, rest)) :
    2 * valuesOfMembers members + rest.val.length < text.length := by
  fun_induction readMembers value text generalizing members with
  | case1 text start within _ after fewer =>
      cases read
      simp only [valuesOfMembers]
      omega
  | case2 text start within _ _ induction =>
      simp only [Option.bind_eq_bind, Option.bind_eq_some_iff] at read
      obtain ⟨⟨afterComma, comma⟩, -, ⟨⟨name, item⟩, afterMember, fewer⟩, readItem,
        ⟨members, rest, _⟩, readRest, done⟩ := read
      cases done
      have first := readMember_spends spends readItem
      have others := induction afterComma comma afterMember fewer readRest
      simp only [valuesOfMembers] at first others ⊢
      omega

private theorem readObject_spends {members : List (String × Json)} {rest : Fewer text}
    (read : readObject value text = some (members, rest)) :
    2 * valuesOfMembers members + rest.val.length ≤ text.length := by
  rw [readObject] at read
  have space := (skipSpace text).property
  dsimp only at read
  split at read
  · cases read
    simp only [valuesOfMembers]
    omega
  · simp only [Option.bind_eq_bind, Option.bind_eq_some_iff] at read
    obtain ⟨⟨⟨name, member⟩, afterMember, fewer⟩, readFirst, ⟨members, rest, _⟩, readRest,
      done⟩ := read
    cases done
    have first := readMember_spends spends readFirst
    have others := readMembers_spends spends readRest
    simp only [valuesOfMembers] at first others ⊢
    omega

end

/-- Every value but an array or an object is a single one. -/
theorem readWord?_values {text : List Char} {json : Json} {rest : Fewer text}
    (read : readWord? text = some (json, rest)) : json.values = 1 := by
  rw [readWord?] at read
  split at read <;> cases read <;> rfl

private theorem readWith_spends
    {array : (text : List Char) → Option (List Json × Fewer text)}
    {object : (text : List Char) → Option (List (String × Json) × Fewer text)}
    (arraySpends : ∀ {text : List Char} {items : List Json} {rest : Fewer text},
      array text = some (items, rest) →
        2 * valuesOfItems items + rest.val.length ≤ text.length)
    (objectSpends : ∀ {text : List Char} {members : List (String × Json)}
        {rest : Fewer text}, object text = some (members, rest) →
        2 * valuesOfMembers members + rest.val.length ≤ text.length) :
    Spends (readWith array object) := by
  intro text json rest read
  rw [readWith] at read
  have space := (skipSpace text).property
  dsimp only at read
  split at read
  · simp only [Option.bind_eq_bind, Option.bind_eq_some_iff] at read
    obtain ⟨⟨items, rest, _⟩, readItems, done⟩ := read
    cases done
    have spent := arraySpends readItems
    dsimp only at spent
    simp only [values]
    omega
  · simp only [Option.bind_eq_bind, Option.bind_eq_some_iff] at read
    obtain ⟨⟨members, rest, _⟩, readMembers, done⟩ := read
    cases done
    have spent := objectSpends readMembers
    dsimp only at spent
    simp only [values]
    omega
  · simp only [Option.bind_eq_bind, Option.bind_eq_some_iff] at read
    obtain ⟨⟨chars, rest, _⟩, -, done⟩ := read
    cases done
    simp only [values]
    omega
  · split at read
    · rename_i word
      cases read
      rw [readWord?_values word]
      dsimp only
      omega
    · simp only [Option.bind_eq_bind, Option.bind_eq_some_iff] at read
      obtain ⟨⟨numeral, rest, _⟩, -, done⟩ := read
      cases done
      simp only [values]
      omega

theorem readValue_spends (depth : Nat) : Spends (readValue depth) := by
  induction depth with
  | zero =>
      exact readWith_spends (fun impossible => by cases impossible)
        (fun impossible => by cases impossible)
  | succ depth induction =>
      exact readWith_spends (readArray_spends induction) (readObject_spends induction)

/-- A JSON text has twice as many characters as values, up to one. -/
theorem values_le_of_parse? {maxDepth : Nat} {text : String} {json : Json}
    (parsed : parse? maxDepth text = some json) : 2 * json.values ≤ text.length + 1 := by
  rw [parse?] at parsed
  simp only [Option.bind_eq_bind, Option.bind_eq_some_iff] at parsed
  obtain ⟨⟨read, rest, fewer⟩, readText, parsed⟩ := parsed
  have spent := readValue_spends maxDepth readText
  simp only [String.length_toList] at spent parsed
  split at parsed
  · cases parsed
    exact Nat.le_of_add_right_le spent
  · cases parsed

end Json

end TreeSelectors
