/-!
# JSON values

The values of JSON texts.  Objects keep their members in order, and a name may
occur more than once.
-/

namespace TreeSelectors

/-- A number as it is written: a sign, the digits in front of the point and
after it, and the sign and the digits of an exponent. -/
structure Numeral where
  negative : Bool
  whole : List Char
  fraction : List Char
  exponent : Option (Bool × List Char)
deriving DecidableEq, Repr

inductive Json where
  | null
  | boolean (value : Bool)
  | number (numeral : Numeral)
  | string (value : String)
  | array (items : List Json)
  | object (members : List (String × Json))

end TreeSelectors
