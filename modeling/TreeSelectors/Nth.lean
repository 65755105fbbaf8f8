import TreeSelectors.Text.Decimal
import TreeSelectors.Text.WhiteSpace

/-!
# `An+B` formulas

An `Nth` stands for the positions `step * n + offset` with `n` a natural
number.  `Nth.parse` reads the notation of the positional pseudo-classes,
`Nth.write` writes it, and `Nth.includes` decides whether a position belongs
to the formula.
-/

namespace TreeSelectors

/-- The positions `step * n + offset` for natural `n`. -/
structure Nth where
  step : Int32
  offset : Int32
deriving DecidableEq, Repr

namespace Nth

/-- A number of the notation; one plus sign may stand in front of it. -/
def readNumber : List Char → Option Int32
  | '+' :: rest => Text.readInt32 rest
  | text => Text.readInt32 text

/-- The step, written before the letter `n`; the digits may be left out. -/
def readStep : List Char → Option Int32
  | [] => some 1
  | ['+'] => some 1
  | ['-'] => some (-1)
  | text => readNumber text

/-- The offset, written after the letter `n`; it starts with a sign or is left
out. -/
def readOffset : List Char → Option Int32
  | [] => some 0
  | sign :: rest =>
      if sign = '+' || sign = '-' then readNumber (sign :: rest) else none

/-- The text of a formula without white space and in small letters. -/
def compact (text : List Char) : List Char :=
  (text.filter fun char => !Text.isWhiteSpace char).map Char.toLower

/-- Reads a compact text: a keyword, a number, or a step, the letter `n` and an
offset. -/
def readCompact (text : List Char) : Option Nth :=
  if text = ['o', 'd', 'd'] then
    some ⟨2, 1⟩
  else if text = ['e', 'v', 'e', 'n'] then
    some ⟨2, 0⟩
  else
    match text.dropWhile (· ≠ 'n') with
    | [] => do return ⟨0, ← readNumber text⟩
    | _ :: offset => do
        return ⟨← readStep (text.takeWhile (· ≠ 'n')), ← readOffset offset⟩

/-- Reads `odd`, `even`, `B`, `An` or `An+B`.  White space counts nowhere, and
letters may have either case. -/
def parse (text : List Char) : Option Nth :=
  readCompact (compact text)

/-- The notation with the step written as a number, and without a step or an
offset that is zero. -/
def write (formula : Nth) : List Char :=
  if formula.step = 0 then
    Text.writeInt32 formula.offset
  else if formula.offset = 0 then
    Text.writeInt32 formula.step ++ ['n']
  else if 0 < formula.offset then
    Text.writeInt32 formula.step ++ 'n' :: '+' :: Text.writeInt32 formula.offset
  else
    Text.writeInt32 formula.step ++ 'n' :: Text.writeInt32 formula.offset

/-- Whether a position is `step * n + offset` for some natural `n`, in 64-bit
arithmetic.  No position beyond the largest 64-bit number belongs to a
formula. -/
def includes (formula : Nth) (position : Nat) : Bool :=
  if position < 0x8000000000000000 then
    let step := formula.step.toInt64
    let offset := formula.offset.toInt64
    if step = 0 then
      Int64.ofNat position = offset
    else
      let distance := Int64.ofNat position - offset
      distance % step = 0 && 0 ≤ distance / step
  else
    false

end Nth

end TreeSelectors
