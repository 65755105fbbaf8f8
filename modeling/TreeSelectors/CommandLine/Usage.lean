/-!
# Usage texts

What the program says about itself.
-/

namespace TreeSelectors.CommandLine

def usage : String :=
  "Usage: selkie [OPTIONS] <TREE.json> <SELECTOR>"

/-- The lines on arguments and options. -/
def optionLines : List String :=
  ["Arguments:",
    "  <TREE.json> <SELECTOR>  Tree file followed by the selector, or only " ++
      "the selector when `--tree-json` or `--expand` is given",
    "",
    "Options:",
    "      --tree-json <JSON>           Read the tree from this JSON string " ++
      "instead of a file",
    "      --expand                     Print the canonical, alias-expanded " ++
      "selector and exit",
    "      --json                       Print each match as a JSON subtree",
    "      --max-depth <MAX_DEPTH>      Matcher recursion limit [default: 256]",
    "      --max-nesting <MAX_NESTING>  Limit on nested :is()/:not()/:has() " ++
      "arguments [default: 32]",
    "  -h, --help                       Print help",
    "  -V, --version                    Print version"]

def exampleLines : List String :=
  ["EXAMPLES:",
    "    # Select checked form controls",
    "    selkie page.json ':checked'",
    "",
    "    # Emit matches as JSON subtrees",
    "    selkie page.json 'fieldset :disabled' --json",
    "",
    "    # Inline tree",
    "    selkie --tree-json " ++
      "'\x7b\"type\":\"element\",\"tagName\":\"p\"\x7d' 'p'",
    "",
    "    # Show what an alias expands to",
    "    selkie --expand ':selected'"]

/-- The answer to a request for help. -/
def help : String :=
  String.join ((
    ["Selkie: CSS selectors with jQuery-style pseudo-classes over JSON trees",
      "", usage, ""] ++ optionLines ++ [""] ++ exampleLines).map (· ++ "\n"))

/-- The answer to a request for the version. -/
def version : String :=
  "selkie 0.1.0\n"

end TreeSelectors.CommandLine
