/-!
# Failures of a run

A failure is written with its causes, the nearest first.  Several causes are
numbered, and the further lines of a cause stand below its first one.
-/

namespace TreeSelectors.CommandLine

/-- Why a run ends without its result. -/
structure Failure where
  summary : String
  causes : List String
deriving DecidableEq, Repr

namespace Failure

/-- A text with some blanks after every end of a line. -/
def indent (blanks : Nat) (text : String) : String :=
  String.ofList (text.toList.flatMap fun char =>
    if char = '\n' then '\n' :: List.replicate blanks ' ' else [char])

def writeNumbered (number : Nat) (cause : String) : String :=
  let digits := toString number
  "".pushn ' ' (5 - digits.length) ++ digits ++ ": " ++ indent 7 cause

/-- The lines of numbered causes, the first of which has a given number. -/
def writeAllNumbered (number : Nat) : List String → String
  | [] => ""
  | cause :: rest =>
      "\n" ++ writeNumbered number cause ++ writeAllNumbered (number + 1) rest

def writeCauses : List String → String
  | [] => ""
  | [cause] => "\n\nCaused by:\n    " ++ indent 4 cause
  | causes => "\n\nCaused by:" ++ writeAllNumbered 0 causes

/-- The text of a failure. -/
def text (failure : Failure) : String :=
  "Error: " ++ failure.summary ++ writeCauses failure.causes ++ "\n"

end Failure

/-- Why a file cannot be read. -/
inductive FileFailure where
  | notFound
  | permissionDenied
  | notDirectory
  | isDirectory
  | nameTooLong
  | linkLoop
  /-- Any other error of the system, with its number. -/
  | other (description : String) (number : Nat)
  /-- The bytes of the file encode no text. -/
  | notText
deriving DecidableEq, Repr

namespace FileFailure

/-- The failure that the system gives a number. -/
def ofNumber (description : String) : (number : Nat) → FileFailure
  | 2 => .notFound
  | 13 => .permissionDenied
  | 20 => .notDirectory
  | 21 => .isDirectory
  | 36 => .nameTooLong
  | 40 => .linkLoop
  | number => .other description number

/-- The message for an error of the system. -/
def systemMessage (description : String) (number : Nat) : String :=
  description ++ " (os error " ++ toString number ++ ")"

def message : FileFailure → String
  | .notFound => systemMessage "No such file or directory" 2
  | .permissionDenied => systemMessage "Permission denied" 13
  | .notDirectory => systemMessage "Not a directory" 20
  | .isDirectory => systemMessage "Is a directory" 21
  | .nameTooLong => systemMessage "File name too long" 36
  | .linkLoop => systemMessage "Too many levels of symbolic links" 40
  | .other description number => systemMessage description number
  | .notText => "stream did not contain valid UTF-8"

end FileFailure

end TreeSelectors.CommandLine
