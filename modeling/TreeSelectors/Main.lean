import TreeSelectors.CommandLine

/-!
# The program

Selects elements of a tree from the command line.
-/

namespace TreeSelectors.CommandLine

/-- The number of an error of the system.  Some calls give it with the opposite
sign. -/
def errorNumber (number : UInt32) : Nat :=
  number.toInt32.toInt.natAbs

/-- The failure that an error of the system stands for. -/
def FileFailure.ofError : IO.Error → FileFailure
  | .alreadyExists _ number description
  | .otherError number description
  | .resourceBusy number description
  | .resourceVanished number description
  | .unsupportedOperation number description
  | .hardwareFault number description
  | .unsatisfiedConstraints number description
  | .illegalOperation number description
  | .protocolError number description
  | .timeExpired number description
  | .interrupted _ number description
  | .noFileOrDirectory _ number description
  | .invalidArgument _ number description
  | .permissionDenied _ number description
  | .resourceExhausted _ number description
  | .inappropriateType _ number description
  | .noSuchThing _ number description =>
      .ofNumber description (errorNumber number)
  | .unexpectedEof => .other "unexpected end of file" 0
  | .userError description => .other description 0

/-- Reads a file as a text. -/
def readFile (path : String) : IO (Except FileFailure String) := do
  match ← (IO.FS.readBinFile path).toBaseIO with
  | .error failure => return .error (.ofError failure)
  | .ok bytes =>
      match String.fromUTF8? bytes with
      | some text => return .ok text
      | none => return .error .notText

def run (arguments : List String) : IO Outcome := do
  match start arguments with
  | .finished outcome => return outcome
  | .reading path resume => return resume (← readFile path)

end TreeSelectors.CommandLine

open TreeSelectors in
def main (arguments : List String) : IO UInt32 := do
  let outcome ← CommandLine.run arguments
  IO.print outcome.output
  IO.eprint outcome.errors
  return outcome.code
