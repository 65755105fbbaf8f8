import TreeSelectors.Alias.Table

/-!
# Built-in aliases

Shorthands for the states of forms and for kinds of elements.
-/

namespace TreeSelectors.Alias

/-- The built-in aliases and what they stand for, in the order in which they
are listed. -/
def definitions : List (String × String) :=
  [("any-link", ":is(a, area, link)[href]"),
    ("link", ":any-link:not(:visited)"),
    ("disabled",
      ":is(" ++
        ":is(button, input, select, textarea, optgroup, option, fieldset)" ++
          "[disabled], " ++
        "optgroup[disabled] > option, " ++
        "fieldset[disabled] > :not(legend:first-of-type), " ++
        "fieldset[disabled] > :not(legend:first-of-type) *" ++
      ")"),
    ("enabled", ":not(:disabled)"),
    ("checked",
      ":is(:is(input[type=radio], input[type=checkbox])[checked], :selected)"),
    ("required", ":is(input, select, textarea)[required]"),
    ("optional", ":is(input, select, textarea):not([required])"),
    ("selected",
      "option:is(" ++
        "[selected], " ++
        "select:not([multiple]):not(:has(option[selected])) > :first-of-type" ++
      ")"),
    ("checkbox", "[type=checkbox]"),
    ("file", "[type=file]"),
    ("password", "[type=password]"),
    ("radio", "[type=radio]"),
    ("reset", "[type=reset]"),
    ("image", "[type=image]"),
    ("submit", "[type=submit]"),
    ("parent", ":not(:empty)"),
    ("header", ":is(h1, h2, h3, h4, h5, h6)"),
    ("button", ":is(button, input[type=button])"),
    ("input", ":is(input, textarea, select, button)"),
    ("text", "input:is(:not([type]), [type=''], [type=text])")]

/-- The table of the built-in aliases. -/
def table : Except ParseError AliasTable :=
  AliasTable.build definitions

/-- The names of the built-in aliases. -/
def names : List String :=
  definitions.map Prod.fst

/-- The text that a built-in alias stands for. -/
def expansion? (name : String) : Option String :=
  match table with
  | .ok table => (table.find? name).map AliasEntry.expansion
  | .error _ => none

end TreeSelectors.Alias
