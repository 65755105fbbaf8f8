import TreeSelectors.CommandLine.Arguments
import TreeSelectors.CommandLine.Failure
import TreeSelectors.CommandLine.Report
import TreeSelectors.CommandLine.Usage
import TreeSelectors.Tree.View

/-!
# The command line

A run reads a selector, and then a tree in which it looks for matches.  It
needs at most one file.  `start` goes as far as that file; what remains is a
function of what was read.
-/

namespace TreeSelectors.CommandLine

/-- What a run leaves behind. -/
structure Outcome where
  /-- Zero for success, one for a failure and two for misuse. -/
  code : UInt32
  output : String
  errors : String
deriving DecidableEq, Repr

/-- The outcome of a run that gave some warnings. -/
def Outcome.ofResult (warnings : List String) :
    Except Failure Report → Outcome
  | .ok report => ⟨0, report.output, String.join warnings ++ report.note⟩
  | .error failure => ⟨1, "", String.join warnings ++ failure.text⟩

/-- How far a run gets without reading a file. -/
inductive Run where
  | finished (outcome : Outcome)
  /-- The run needs a file, and goes on with what reading it gives. -/
  | reading (path : String) (resume : Except FileFailure String → Outcome)

/-- The outcome of arguments that make no sense. -/
def Misuse.outcome (misuse : Misuse) : Outcome :=
  { code := 2
    output := ""
    errors := "error: " ++ misuse.message ++ "\n\n" ++ usage ++
      "\n\nFor more information, try '--help'.\n" }

/-! ## Trees -/

/-- Where the tree of a run comes from. -/
inductive TreeSource where
  | text (content : String)
  | file (path : String)
deriving DecidableEq, Repr

def treeSource (path treeJson : Option String) : Except Failure TreeSource :=
  match path, treeJson with
  | none, some text => .ok (.text text)
  | some path, none => .ok (.file path)
  | some _, some _ =>
      .error ⟨"give either a tree file or --tree-json, not both", []⟩
  | none, none => .error ⟨"a tree file or --tree-json is required", []⟩

/-- The causes of a failure to load a tree. -/
def loadCauses (failure : LoadError) : List String :=
  match failure with
  | .json => [failure.message, "not the notation of a tree"]
  | .nestedDocument => [failure.message]

def loadTree (text : String) : Except Failure Tree :=
  (Tree.load text).mapError fun failure =>
    ⟨"loading tree", loadCauses failure⟩

/-! ## Runs -/

namespace Invocation

def limits (invocation : Invocation) : CompileLimits :=
  match invocation.maxNesting with
  | some limit => { maxNesting := limit }
  | none => {}

/-- Matches a selector against the tree that a text writes. -/
def select (invocation : Invocation) (compiled : CompiledSelector)
    (text : String) : Except Failure Report := do
  let tree ← loadTree text
  let found ← (compiled.select tree.view Tree.root).mapError fun failure =>
    ⟨"matching '" ++ compiled.source ++ "' failed", [failure.message]⟩
  if invocation.json then
    return .inJson tree found
  else
    return .listing tree compiled.text found

/-- Matches a selector against the tree in a file. -/
def selectFrom (invocation : Invocation) (compiled : CompiledSelector)
    (path : String) (content : Except FileFailure String) :
    Except Failure Report := do
  let text ← content.mapError fun failure =>
    ⟨"reading '" ++ path ++ "'", [failure.message]⟩
  invocation.select compiled text

/-- A run with a selector, and with a file if one is given. -/
def startWith (invocation : Invocation) (path : Option String)
    (selector : String) : Run :=
  let (compiled, _, warnings) := CompiledSelector.compileWarning .empty
    selector invocation.limits (invocation.maxDepth.getD defaultMaxDepth)
  let finish := Outcome.ofResult warnings
  match compiled with
  | .error failure => .finished (finish (.error
      ⟨"invalid selector '" ++ selector ++ "'", [failure.message]⟩))
  | .ok compiled =>
      if invocation.expand then
        .finished (finish (.ok ⟨compiled.text ++ "\n", ""⟩))
      else
        match treeSource path invocation.treeJson with
        | .error failure => .finished (finish (.error failure))
        | .ok (.text text) =>
            .finished (finish (invocation.select compiled text))
        | .ok (.file path) => .reading path fun content =>
            finish (invocation.selectFrom compiled path content)

def start (invocation : Invocation) : Run :=
  match invocation.inputs with
  | [selector] => invocation.startWith none selector
  | [path, selector] => invocation.startWith (some path) selector
  | _ => .finished (.ofResult []
      (.error ⟨"expected a tree file and a selector", []⟩))

end Invocation

/-- Starts a run with the arguments of the command line. -/
def start (arguments : List String) : Run :=
  match read arguments with
  | .error misuse => .finished misuse.outcome
  | .ok .help => .finished ⟨0, help, ""⟩
  | .ok .version => .finished ⟨0, version, ""⟩
  | .ok (.run invocation) => invocation.start

/-- The outcome of a run, given what reading files gives. -/
def outcome (readFile : String → Except FileFailure String)
    (arguments : List String) : Outcome :=
  match start arguments with
  | .finished outcome => outcome
  | .reading path resume => resume (readFile path)

end TreeSelectors.CommandLine
