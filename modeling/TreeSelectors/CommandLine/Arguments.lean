import TreeSelectors.Limits
import TreeSelectors.Text.Decimal

/-!
# Arguments of the command line

An argument that starts with a hyphen and goes on is an option, all others are
inputs; after `--` all are inputs.  An option gets its value after an equality
sign or in the next argument, and may be given once.

Arguments are read from the first to the last.  The request for help or for the
version ends the reading, so that what comes after it does not count.
-/

namespace TreeSelectors.CommandLine

/-- Options without a value. -/
inductive Flag where
  | expand
  | json
deriving DecidableEq, Repr

def Flag.name : Flag → String
  | .expand => "--expand"
  | .json => "--json"

/-- Options with a value. -/
inductive Setting where
  | treeJson
  | maxDepth
  | maxNesting
deriving DecidableEq, Repr

def Setting.name : Setting → String
  | .treeJson => "--tree-json"
  | .maxDepth => "--max-depth"
  | .maxNesting => "--max-nesting"

/-- Why arguments make no sense. -/
inductive Misuse where
  | unknownOption (name : String)
  /-- An option that may be given once. -/
  | repeatedOption (name : String)
  /-- An option that needs a value. -/
  | missingValue (name : String)
  /-- An option that takes no value. -/
  | unexpectedValue (name : String)
  | invalidNumber (name value : String)
  | noInputs
  /-- More than two inputs without an option between them. -/
  | tooManyInputs
deriving DecidableEq, Repr

def Misuse.message : Misuse → String
  | .unknownOption name => "unexpected argument '" ++ name ++ "' found"
  | .repeatedOption name =>
      "the argument '" ++ name ++ "' cannot be used multiple times"
  | .missingValue name => "a value is required for '" ++ name ++ "'"
  | .unexpectedValue name => "unexpected value for '" ++ name ++ "'"
  | .invalidNumber name value =>
      "invalid value '" ++ value ++ "' for '" ++ name ++ "'"
  | .noInputs => "the inputs were not provided"
  | .tooManyInputs => "more than two inputs were provided"

/-- What the arguments of a run say. -/
structure Invocation where
  /-- The arguments that belong to no option. -/
  inputs : List String := []
  /-- The notation of the tree. -/
  treeJson : Option String := none
  /-- Whether to write the canonical selector and nothing else. -/
  expand : Bool := false
  /-- Whether to write matches in their notation. -/
  json : Bool := false
  maxDepth : Option Nat := none
  maxNesting : Option Nat := none
deriving DecidableEq, Repr

/-- What arguments ask for. -/
inductive Request where
  | help
  | version
  | run (invocation : Invocation)
deriving DecidableEq, Repr

/-! ## One argument -/

inductive Argument where
  /-- The argument `--`. -/
  | separator
  /-- Two hyphens and a name, with what stands after an equality sign. -/
  | option (name : String) (value : Option String)
  /-- A hyphen and at least one letter. -/
  | letters (first : Char)
  | plain (text : String)
deriving DecidableEq, Repr

namespace Argument

/-- An option whose hyphens were read. -/
def ofOption (text : List Char) : Argument :=
  let name := "--" ++ String.ofList (text.takeWhile (· ≠ '='))
  match text.dropWhile (· ≠ '=') with
  | [] => .option name none
  | _ :: value => .option name (some (String.ofList value))

def ofString (text : String) : Argument :=
  match text.toList with
  | ['-', '-'] => .separator
  | '-' :: '-' :: rest => ofOption rest
  | '-' :: first :: _ => .letters first
  | _ => .plain text

/-- Whether an argument can be the value of the option in front of it. -/
def isPlain : Argument → Bool
  | .plain _ => true
  | _ => false

end Argument

/-! ## Reading -/

/-- What was read of an invocation. -/
structure Draft where
  invocation : Invocation := {}
  /-- The number of inputs since the last option. -/
  run : Nat := 0
deriving DecidableEq, Repr

namespace Draft

def addInput (draft : Draft) (text : String) : Draft :=
  { invocation :=
      { draft.invocation with inputs := draft.invocation.inputs ++ [text] }
    run := draft.run + 1 }

/-- Ends a run of inputs, which may not be longer than two. -/
def endRun (draft : Draft) : Except Misuse Draft :=
  if 2 < draft.run then
    .error .tooManyInputs
  else
    .ok { draft with run := 0 }

/-- The invocation, if it has any inputs. -/
def finish (draft : Draft) : Except Misuse Request := do
  let draft ← draft.endRun
  if draft.invocation.inputs.isEmpty then
    throw .noInputs
  else
    return .run draft.invocation

def change (draft : Draft) (edit : Invocation → Invocation) : Draft :=
  { draft with invocation := edit draft.invocation }

def raise (draft : Draft) (flag : Flag) : Except Misuse Draft := do
  let given := match flag with
    | .expand => draft.invocation.expand
    | .json => draft.invocation.json
  if given then
    throw (.repeatedOption flag.name)
  else
    return draft.change fun invocation =>
      match flag with
      | .expand => { invocation with expand := true }
      | .json => { invocation with json := true }

def number (setting : Setting) (value : String) : Except Misuse Nat :=
  match Text.readWord value.toList with
  | some number => .ok number
  | none => .error (.invalidNumber setting.name value)

def set (draft : Draft) (setting : Setting) (value : String) :
    Except Misuse Draft := do
  let given := match setting with
    | .treeJson => draft.invocation.treeJson.isSome
    | .maxDepth => draft.invocation.maxDepth.isSome
    | .maxNesting => draft.invocation.maxNesting.isSome
  if given then
    throw (.repeatedOption setting.name)
  else
    match setting with
    | .treeJson =>
        return draft.change ({ · with treeJson := some value })
    | .maxDepth =>
        let limit ← number setting value
        return draft.change ({ · with maxDepth := some limit })
    | .maxNesting =>
        let limit ← number setting value
        return draft.change ({ · with maxNesting := some limit })

end Draft

def flag? (name : String) : Option Flag :=
  [Flag.expand, .json].find? (·.name = name)

def setting? (name : String) : Option Setting :=
  [Setting.treeJson, .maxDepth, .maxNesting].find? (·.name = name)

/-- A request that is no run, by the name of its option. -/
def request? : String → Option Request
  | "--help" | "-h" => some .help
  | "--version" | "-V" => some .version
  | _ => none

/-- The request that ends the reading. -/
def stopAt (name : String) : Except Misuse Request :=
  match request? name with
  | some request => .ok request
  | none => .error (.unknownOption name)

/-- Reads the arguments after those of a draft. -/
def readFrom (draft : Draft) : List String → Except Misuse Request
  | [] => draft.finish
  | argument :: rest =>
      match Argument.ofString argument with
      | .plain text => readFrom (draft.addInput text) rest
      | .separator => (rest.foldl Draft.addInput draft).finish
      | .letters first => do
          let _ ← draft.endRun
          stopAt ("-" ++ first.toString)
      | .option name value => do
          let draft ← draft.endRun
          match setting? name, value, rest with
          | some setting, some value, rest =>
              readFrom (← draft.set setting value) rest
          | some setting, none, value :: rest =>
              if (Argument.ofString value).isPlain then
                readFrom (← draft.set setting value) rest
              else
                throw (.missingValue name)
          | some _, none, [] => throw (.missingValue name)
          | none, some _, _ =>
              if (flag? name).isSome || (request? name).isSome then
                throw (.unexpectedValue name)
              else
                throw (.unknownOption name)
          | none, none, rest =>
              match flag? name with
              | some flag => readFrom (← draft.raise flag) rest
              | none => stopAt name

/-- Reads the arguments of a command line. -/
def read (arguments : List String) : Except Misuse Request :=
  readFrom {} arguments

end TreeSelectors.CommandLine
