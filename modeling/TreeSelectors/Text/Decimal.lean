/-!
# Decimal numbers

The numbers of an `An+B` formula are written in decimal with an optional minus
sign.  `readInt32` reads such a number, with any number of leading zeros, and
refuses what does not fit into 32 bits; `writeInt32` writes the shortest form.

Limits are written in decimal with an optional plus sign; `readWord` refuses
what does not fit into 64 bits.
-/

namespace TreeSelectors.Text

/-- The value of a non-empty run of decimal digits. -/
def readDigits (digits : List Char) : Option Nat :=
  if !digits.isEmpty && digits.all Char.isDigit then
    some (Nat.ofDigitChars 10 digits 0)
  else
    none

/-- An integer as a 32-bit word, if it lies in the range of one. -/
def toInt32? (value : Int) : Option Int32 :=
  if Int32.minValue.toInt ≤ value ∧ value ≤ Int32.maxValue.toInt then
    some (Int32.ofInt value)
  else
    none

/-- The 32-bit number written as an optional minus sign and decimal digits. -/
def readInt32 : List Char → Option Int32
  | '-' :: digits => do toInt32? (-Int.ofNat (← readDigits digits))
  | digits => do toInt32? (Int.ofNat (← readDigits digits))

/-- The number of at most 64 bits written as an optional plus sign and decimal
digits. -/
def readWord (text : List Char) : Option Nat :=
  let digits := match text with
    | '+' :: digits => digits
    | digits => digits
  (readDigits digits).filter (· < UInt64.size)

/-- An integer in decimal, with a minus sign if it is negative. -/
def writeInt : Int → List Char
  | .ofNat value => Nat.toDigits 10 value
  | .negSucc value => '-' :: Nat.toDigits 10 (value + 1)

/-- A 32-bit number in decimal. -/
def writeInt32 (value : Int32) : List Char :=
  writeInt value.toInt

end TreeSelectors.Text
