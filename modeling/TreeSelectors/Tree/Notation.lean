import TreeSelectors.Json.Reader
import TreeSelectors.Json.Writer
import TreeSelectors.Tree.Outline

/-!
# The JSON notation of trees

A node is written as an object whose member `type` says what else it has: an
element has a `tagName`, `attributes` and `children`, a document has
`children`, and texts and comments have `content`.  Attributes and children may
be left out.  No member that a node uses may occur twice, and members that it
does not use may hold anything.

A node may also be written as a list of its type and of its members in the
order above.  Below the outermost node, a type may be given by its number.
-/

namespace TreeSelectors

namespace Outline

/-- What a node is, as its notation names it. -/
inductive Kind where
  | document
  | element
  | text
  | comment
deriving DecidableEq, Repr

namespace Kind

def name : Kind → String
  | .document => "document"
  | .element => "element"
  | .text => "text"
  | .comment => "comment"

def all : List Kind :=
  [.document, .element, .text, .comment]

/-- The type that a value stands for. -/
def ofJson? (nested : Bool) : Json → Option Kind
  | .string name => all.find? (·.name = name)
  | .number numeral =>
      if nested then numeral.word?.bind (all[·]?) else none
  | _ => none

/-- The members that a node uses. -/
def members : Kind → List String
  | .document => ["children"]
  | .element => ["tagName", "attributes", "children"]
  | .text | .comment => ["content"]

end Kind

/-! ## Reading -/

/-- A member of a node: what it holds, and the outlines that it would hold as
the children of a node. -/
structure Member where
  value : Json
  children : Option (List Outline)

/-- The only member with a name; `none` if there are several. -/
def single? (name : String) (members : List (String × Member)) :
    Option (Option Member) :=
  match members.filter (·.1 = name) with
  | [] => some none
  | [member] => some (some member.2)
  | _ => none

def readText (member : Option Member) : Option String :=
  match member with
  | some ⟨.string value, _⟩ => some value
  | _ => none

def readPairs : List (String × Json) → Option (List (String × String))
  | [] => some []
  | (name, .string value) :: rest =>
      (readPairs rest).map ((name, value) :: ·)
  | _ => none

def readAttributes : Option Member → Option Attributes
  | none => some .empty
  | some ⟨.object members, _⟩ => (readPairs members).map .ofList
  | _ => none

def readChildren : Option Member → Option (List Outline)
  | none => some []
  | some member => member.children

/-- The node of a type whose members are looked up by name. -/
def assemble (member? : String → Option (Option Member)) :
    Kind → Option Outline
  | .document => do
      return .document (← readChildren (← member? "children"))
  | .element => do
      let tagName ← readText (← member? "tagName")
      let attributes ← readAttributes (← member? "attributes")
      let children ← readChildren (← member? "children")
      return .element ⟨tagName, attributes⟩ children
  | .text => do return .text (← readText (← member? "content"))
  | .comment => do return .comment (← readText (← member? "content"))

/-- The node that the members of an object write. -/
def ofMembers (nested : Bool) (members : List (String × Member)) :
    Option Outline := do
  let type ← ← single? "type" members
  let kind ← Kind.ofJson? nested type.value
  assemble (single? · members) kind

/-- The node that the items of a list write. -/
def ofItems (nested : Bool) (items : List Member) : Option Outline := do
  let type ← items.head?
  let kind ← Kind.ofJson? nested type.value
  let members := items.tail
  if kind.members.length < members.length then
    none
  else
    assemble (single? · (kind.members.zip members)) kind

mutual

/-- The outline that a value writes, below another node or by itself. -/
def ofJson? (nested : Bool) : Json → Option Outline
  | .object members => ofMembers nested (namedMembers members)
  | .array items => ofItems nested (listedMembers items)
  | _ => none

/-- The outlines that a value writes as the children of a node. -/
def childrenOf? : Json → Option (List Outline)
  | .array items => ofAll? items
  | _ => none

def ofAll? : List Json → Option (List Outline)
  | [] => some []
  | item :: rest =>
      match ofJson? true item, ofAll? rest with
      | some outline, some outlines => some (outline :: outlines)
      | _, _ => none

def namedMembers : List (String × Json) → List (String × Member)
  | [] => []
  | (name, value) :: rest =>
      (name, ⟨value, childrenOf? value⟩) :: namedMembers rest

def listedMembers : List Json → List Member
  | [] => []
  | value :: rest => ⟨value, childrenOf? value⟩ :: listedMembers rest

end

/-! ## Writing -/

def attributesToJson (attributes : Attributes) : Json :=
  .object (attributes.entries.map fun entry => (entry.1, .string entry.2))

mutual

/-- The notation of an outline.  An element without children is written without
the member for them. -/
def toJson : Outline → Json
  | .document children =>
      .object [("type", .string "document"),
        ("children", .array (allToJson children))]
  | .element data children =>
      .object ([("type", .string "element"), ("tagName", .string data.tagName),
        ("attributes", attributesToJson data.attributes)] ++
          if children.isEmpty then []
          else [("children", .array (allToJson children))])
  | .text content =>
      .object [("type", .string "text"), ("content", .string content)]
  | .comment content =>
      .object [("type", .string "comment"), ("content", .string content)]

def allToJson : List Outline → List Json
  | [] => []
  | outline :: rest => outline.toJson :: allToJson rest

end

end Outline

/-- Why a text is not the notation of a tree. -/
inductive LoadError where
  /-- The text is no JSON text, or not that of a node. -/
  | json
  /-- The text writes a document below another node. -/
  | nestedDocument
deriving DecidableEq, Repr

def LoadError.message : LoadError → String
  | .json => "invalid tree JSON"
  | .nestedDocument => "document node nested inside another node"

/-- How deep arrays and objects may stand in each other. -/
def Tree.maxNotationDepth : Nat :=
  127

/-- The tree that a text writes. -/
def Tree.load (text : String) : Except LoadError Tree :=
  match (Json.parse? maxNotationDepth text).bind (Outline.ofJson? false) with
  | none => .error .json
  | some outline =>
      match Tree.ofOutline outline with
      | none => .error .nestedDocument
      | some tree => .ok tree

end TreeSelectors
