/-!
# Attributes

The attributes of an element: names with values, each name once, sorted by
name.  The order is that of code points.
-/

namespace TreeSelectors

structure Attributes where
  entries : List (String × String)
  increasing : entries.Pairwise fun left right => left.1 < right.1

namespace Attributes

instance : DecidableEq Attributes := fun left right =>
  decidable_of_iff (left.entries = right.entries) (by
    cases left
    cases right
    simp)

def empty : Attributes :=
  ⟨[], .nil⟩

/-- The value of an attribute. -/
def get? (attributes : Attributes) (name : String) : Option String :=
  attributes.entries.lookup name

/-- Sorted entries with one entry added or replaced. -/
def insertEntry (name value : String) :
    List (String × String) → List (String × String)
  | [] => [(name, value)]
  | (other, old) :: rest =>
      if name < other then
        (name, value) :: (other, old) :: rest
      else if name = other then
        (name, value) :: rest
      else
        (other, old) :: insertEntry name value rest

theorem mem_insertEntry {name value : String}
    {entries : List (String × String)} {entry : String × String}
    (member : entry ∈ insertEntry name value entries) :
    entry = (name, value) ∨ entry ∈ entries := by
  induction entries with
  | nil => simpa [insertEntry] using member
  | cons first rest induction =>
      obtain ⟨other, old⟩ := first
      simp only [insertEntry] at member
      split at member
      · simpa using member
      · split at member
        · rcases List.mem_cons.mp member with equality | member
          · exact Or.inl equality
          · exact Or.inr (List.mem_cons_of_mem _ member)
        · rcases List.mem_cons.mp member with equality | member
          · exact Or.inr (equality ▸ List.mem_cons_self)
          · rcases induction member with equality | member
            · exact Or.inl equality
            · exact Or.inr (List.mem_cons_of_mem _ member)

theorem insertEntry_increasing (name value : String)
    {entries : List (String × String)}
    (increasing : entries.Pairwise fun left right => left.1 < right.1) :
    (insertEntry name value entries).Pairwise
      fun left right => left.1 < right.1 := by
  induction entries with
  | nil => simp [insertEntry]
  | cons first rest induction =>
      obtain ⟨other, old⟩ := first
      have above := (List.pairwise_cons.mp increasing).1
      have sorted := (List.pairwise_cons.mp increasing).2
      simp only [insertEntry]
      split
      · rename_i before
        refine List.pairwise_cons.mpr ⟨?_, increasing⟩
        intro entry member
        rcases List.mem_cons.mp member with equality | member
        · exact equality ▸ before
        · exact String.lt_trans before (above entry member)
      · split
        · rename_i _ same
          refine List.pairwise_cons.mpr ⟨?_, sorted⟩
          intro entry member
          exact same ▸ above entry member
        · rename_i notBefore different
          refine List.pairwise_cons.mpr ⟨?_, induction sorted⟩
          intro entry member
          rcases mem_insertEntry member with equality | member
          · subst equality
            exact Decidable.byContradiction fun notAfter =>
              different (Std.Trichotomous.trichotomous name other notBefore
                notAfter)
          · exact above entry member

/-- The attributes with one added or replaced. -/
def insert (attributes : Attributes) (name value : String) : Attributes :=
  ⟨insertEntry name value attributes.entries,
    insertEntry_increasing name value attributes.increasing⟩

/-- The attributes that a list of names and values gives; the last value of a
name counts. -/
def ofList (pairs : List (String × String)) : Attributes :=
  pairs.foldl (fun attributes pair => attributes.insert pair.1 pair.2) empty

end Attributes

end TreeSelectors
