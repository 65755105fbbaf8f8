import TreeSelectors.Alias.Builtin
import TreeSelectors.Alias.Table
import TreeSelectors.AttributeTest
import TreeSelectors.CommandLine
import TreeSelectors.CommandLine.Arguments
import TreeSelectors.CommandLine.Failure
import TreeSelectors.CommandLine.Report
import TreeSelectors.CommandLine.Usage
import TreeSelectors.CompiledSelector
import TreeSelectors.Json
import TreeSelectors.Json.Numeral
import TreeSelectors.Json.Reader
import TreeSelectors.Json.Writer
import TreeSelectors.Limits
import TreeSelectors.Main
import TreeSelectors.Matching
import TreeSelectors.Matching.Navigation
import TreeSelectors.Matching.Prefilter
import TreeSelectors.Nth
import TreeSelectors.Proofs.Alias.Building
import TreeSelectors.Proofs.Alias.Builtin
import TreeSelectors.Proofs.Alias.Calls
import TreeSelectors.Proofs.Alias.Cycles
import TreeSelectors.Proofs.Alias.Order
import TreeSelectors.Proofs.Alias.References
import TreeSelectors.Proofs.Alias.Settling
import TreeSelectors.Proofs.Ancestors
import TreeSelectors.Proofs.Answer
import TreeSelectors.Proofs.Bindings
import TreeSelectors.Proofs.Decisions
import TreeSelectors.Proofs.DocumentOrder
import TreeSelectors.Proofs.Forest
import TreeSelectors.Proofs.FormStates
import TreeSelectors.Proofs.Json
import TreeSelectors.Proofs.LogicalClasses
import TreeSelectors.Proofs.Matching.Adequacy
import TreeSelectors.Proofs.Matching.Agreement
import TreeSelectors.Proofs.Matching.AttributeForms
import TreeSelectors.Proofs.Matching.Conditions
import TreeSelectors.Proofs.Matching.Depth
import TreeSelectors.Proofs.Matching.DepthLimit
import TreeSelectors.Proofs.Matching.Exhaustive
import TreeSelectors.Proofs.Matching.Levels
import TreeSelectors.Proofs.Matching.Navigation
import TreeSelectors.Proofs.Matching.Prefilter
import TreeSelectors.Proofs.Matching.Questions
import TreeSelectors.Proofs.Matching.Region
import TreeSelectors.Proofs.Matching.Reordering
import TreeSelectors.Proofs.Matching.Search
import TreeSelectors.Proofs.Matching.Selecting
import TreeSelectors.Proofs.Matching.Semantics
import TreeSelectors.Proofs.Matching.SufficientRegion
import TreeSelectors.Proofs.Matching.Wrapping
import TreeSelectors.Proofs.Nth
import TreeSelectors.Proofs.Nth.Arithmetic
import TreeSelectors.Proofs.Nth.Notation
import TreeSelectors.Proofs.Nth.Reading
import TreeSelectors.Proofs.OptionStates
import TreeSelectors.Proofs.Positions
import TreeSelectors.Proofs.Presentation
import TreeSelectors.Proofs.Remarks
import TreeSelectors.Proofs.Selection
import TreeSelectors.Proofs.Selector.Abbreviations
import TreeSelectors.Proofs.Selector.Breaks
import TreeSelectors.Proofs.Selector.BrokenReadings
import TreeSelectors.Proofs.Selector.BrokenSelectors
import TreeSelectors.Proofs.Selector.BrokenTerms
import TreeSelectors.Proofs.Selector.Canonical
import TreeSelectors.Proofs.Selector.Chains
import TreeSelectors.Proofs.Selector.CheckedReading
import TreeSelectors.Proofs.Selector.CheckedSelectors
import TreeSelectors.Proofs.Selector.CheckedTerms
import TreeSelectors.Proofs.Selector.Comments
import TreeSelectors.Proofs.Selector.Compounds
import TreeSelectors.Proofs.Selector.Conditions
import TreeSelectors.Proofs.Selector.Dependence
import TreeSelectors.Proofs.Selector.Failures
import TreeSelectors.Proofs.Selector.Grammar
import TreeSelectors.Proofs.Selector.Limits
import TreeSelectors.Proofs.Selector.LineFeeds
import TreeSelectors.Proofs.Selector.Nesting
import TreeSelectors.Proofs.Selector.Parsing
import TreeSelectors.Proofs.Selector.Passages
import TreeSelectors.Proofs.Selector.Printing
import TreeSelectors.Proofs.Selector.Reading
import TreeSelectors.Proofs.Selector.RoundTrip
import TreeSelectors.Proofs.Selector.Shape
import TreeSelectors.Proofs.Selector.Soundness
import TreeSelectors.Proofs.Selector.Terms
import TreeSelectors.Proofs.Selector.Tracking
import TreeSelectors.Proofs.Selector.Transfer
import TreeSelectors.Proofs.Selector.Written
import TreeSelectors.Proofs.Siblings
import TreeSelectors.Proofs.Text.Decimals
import TreeSelectors.Proofs.Text.Endings
import TreeSelectors.Proofs.Text.Names
import TreeSelectors.Proofs.Text.Quoted
import TreeSelectors.Proofs.Text.Words
import TreeSelectors.Proofs.Token.Comments
import TreeSelectors.Proofs.Token.Following
import TreeSelectors.Proofs.Token.Scanning
import TreeSelectors.Proofs.Token.Tiling
import TreeSelectors.Proofs.Token.Writing
import TreeSelectors.Proofs.Tree.Construction
import TreeSelectors.Proofs.Tree.Exposed
import TreeSelectors.Proofs.Tree.Growing
import TreeSelectors.Proofs.Tree.Iteration
import TreeSelectors.Proofs.Tree.Links
import TreeSelectors.Proofs.Tree.Listing
import TreeSelectors.Proofs.Tree.Loading
import TreeSelectors.Proofs.Tree.Saving
import TreeSelectors.Proofs.Tree.Size
import TreeSelectors.Proofs.Tree.View
import TreeSelectors.Proofs.Tree.Walks
import TreeSelectors.Proofs.Warnings
import TreeSelectors.Selector
import TreeSelectors.Selector.Equality
import TreeSelectors.Selector.ParseError
import TreeSelectors.Selector.Parser
import TreeSelectors.Selector.Printer
import TreeSelectors.Selector.Remark
import TreeSelectors.Terminal
import TreeSelectors.Text.Ascii
import TreeSelectors.Text.Decimal
import TreeSelectors.Text.Escape
import TreeSelectors.Text.Name
import TreeSelectors.Text.Quoted
import TreeSelectors.Text.WhiteSpace
import TreeSelectors.Token
import TreeSelectors.Token.Lexer
import TreeSelectors.Tree
import TreeSelectors.Tree.Attributes
import TreeSelectors.Tree.Notation
import TreeSelectors.Tree.Outline
import TreeSelectors.Tree.View
import TreeSelectors.TreeView
import TreeSelectors.Unfolding
import TreeSelectors.WarningSet
