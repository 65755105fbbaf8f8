import TreeSelectors.Json

/-!
# Numbers in JSON texts

A JSON text may hold any number that a floating-point number of 64 bits can
stand for.  The value of a number is taken from as many leading digits as fit
into a word of 64 bits, and from its exponent.
-/

namespace TreeSelectors

namespace Numeral

def digitValue (digit : Char) : Nat :=
  digit.toNat - '0'.toNat

/-- The value of a run of digits. -/
def value (digits : List Char) : Nat :=
  digits.foldl (fun value digit => 10 * value + digitValue digit) 0

/-- Appends digits to a number as long as it stays a word of 64 bits: the
number, and how many digits are left over. -/
def absorb (number : Nat) : List Char → Nat × Nat
  | [] => (number, 0)
  | digit :: rest =>
      let longer := 10 * number + digitValue digit
      if longer < UInt64.size then
        absorb longer rest
      else
        (number, rest.length + 1)

/-- The digits that count, as one number, and the power of ten that it is to be
multiplied with. -/
def scaled (numeral : Numeral) : Nat × Int :=
  let whole := absorb 0 numeral.whole
  let all := absorb whole.1 numeral.fraction
  let taken := numeral.fraction.length - all.2
  let exponent : Int := match numeral.exponent with
    | none => 0
    | some (true, digits) => -Int.ofNat (value digits)
    | some (false, digits) => Int.ofNat (value digits)
  (all.1, Int.ofNat whole.2 - Int.ofNat taken + exponent)

/-- A number rounded to 53 binary digits, a half to the even neighbour. -/
def roundToDouble (number : Nat) : Nat :=
  let unit := Nat.pow 2 (number.log2 - 52)
  let lower := number / unit
  let rest := number % unit
  if unit < 2 * rest ∨ (unit = 2 * rest ∧ lower % 2 = 1) then
    (lower + 1) * unit
  else
    lower * unit

/-- Half a unit above the largest finite floating-point number of 64 bits. -/
def overflow : Nat :=
  Nat.pow 2 1024 - Nat.pow 2 970

/-- Whether a number is no larger than floating-point numbers of 64 bits can
be.  Its digits and its power of ten are rounded before they are
multiplied. -/
def fitsDouble (numeral : Numeral) : Bool :=
  match numeral.scaled with
  | (0, _) => true
  | (number, .ofNat power) =>
      power ≤ 308 &&
        roundToDouble number * roundToDouble (Nat.pow 10 power) < overflow
  | (_, .negSucc _) => true

/-- The value of a numeral that is a run of digits and fits into a word of 64
bits. -/
def word? (numeral : Numeral) : Option Nat :=
  if numeral.negative || !numeral.fraction.isEmpty ||
      numeral.exponent.isSome then
    none
  else
    let value := value numeral.whole
    if value < UInt64.size then some value else none

end Numeral

end TreeSelectors
