import AttrGrammar.Attribute
import AttrGrammar.Attribution
import AttrGrammar.Config.Error
import AttrGrammar.Config.Layout
import AttrGrammar.Config.Registry
import AttrGrammar.Decimal.Notation
import AttrGrammar.Decimal.Reading
import AttrGrammar.Decimal.Shortest
import AttrGrammar.Folding
import AttrGrammar.Grammar.Basic
import AttrGrammar.Grammar.Draft
import AttrGrammar.Grammar.Error
import AttrGrammar.Grammar.First
import AttrGrammar.Grammar.Follow
import AttrGrammar.Json.Number
import AttrGrammar.Json.Printer
import AttrGrammar.Json.Reader
import AttrGrammar.Json.Skip
import AttrGrammar.Json.Value
import AttrGrammar.Language
import AttrGrammar.Layout
import AttrGrammar.NameSet
import AttrGrammar.Parsing.Descent
import AttrGrammar.Parsing.Error
import AttrGrammar.Pattern.Basic
import AttrGrammar.Pattern.Matcher
import AttrGrammar.Pattern.Syntax
import AttrGrammar.Pipeline
import AttrGrammar.Procedure.Canonical
import AttrGrammar.Procedure.CompileError
import AttrGrammar.Procedure.Construct
import AttrGrammar.Procedure.Environment
import AttrGrammar.Procedure.Input
import AttrGrammar.Procedure.Language
import AttrGrammar.Procedure.Output
import AttrGrammar.Procedure.Samples
import AttrGrammar.Procedure.Scope
import AttrGrammar.Procedure.Stage
import AttrGrammar.Procedure.Symbols
import AttrGrammar.Procedure.SyntaxTree
import AttrGrammar.Procedure.Value
import AttrGrammar.Proofs.Attribution.Evaluation
import AttrGrammar.Proofs.Parsing.Derivation
import AttrGrammar.Proofs.Parsing.Lookahead
import AttrGrammar.Proofs.Parsing.Predictive
import AttrGrammar.Proofs.Parsing.Soundness
import AttrGrammar.Proofs.Procedure.Meaning
import AttrGrammar.Proofs.Procedure.Outline
import AttrGrammar.Proofs.Procedure.Parsing
import AttrGrammar.Proofs.Attribution.Equations
import AttrGrammar.Proofs.Procedure.Scoping
import AttrGrammar.Proofs.Procedure.Simplified
import AttrGrammar.Proofs.Procedure.Symbols
import AttrGrammar.Proofs.Tree.Arena
import AttrGrammar.Proofs.Tree.Bare
import AttrGrammar.Proofs.Tree.Forest
import AttrGrammar.Proofs.Tree.Graft
import AttrGrammar.Proofs.Tree.Order
import AttrGrammar.Proofs.Tree.Splicing
import AttrGrammar.Proofs.Tree.Without
import AttrGrammar.Rule
import AttrGrammar.Scanner
import AttrGrammar.Table
import AttrGrammar.Text.Hex
import AttrGrammar.Text.Invisible
import AttrGrammar.Text.Quoted
import AttrGrammar.Token
import AttrGrammar.Tree.Basic
import AttrGrammar.Tree.Splice
import AttrGrammar.Tree.Traversal
import AttrGrammar.Yaml.Reader
import AttrGrammar.Yaml.Scalar
import AttrGrammar.Yaml.Value
import AttrGrammar.Proofs.Json.Literal
import AttrGrammar.Proofs.Json.Numeral
import AttrGrammar.Proofs.Json.Written
import AttrGrammar.Proofs.Json.Reading
import AttrGrammar.Proofs.Pattern.Recognizer
import AttrGrammar.Proofs.Procedure.Terminals
import AttrGrammar.Proofs.Procedure.Standard
import AttrGrammar.Proofs.Procedure.Scanning
import AttrGrammar.Proofs.Procedure.Pieces
import AttrGrammar.Proofs.Folding
import AttrGrammar.Proofs.Folding.Steps
import AttrGrammar.Proofs.Folding.Names
import AttrGrammar.Proofs.Folding.Rounds
import AttrGrammar.Proofs.Folding.Blocks
import AttrGrammar.Proofs.Folding.Termination
import AttrGrammar.Proofs.Procedure.Strings
import AttrGrammar.Proofs.Procedure.Folding
import AttrGrammar.Proofs.Attribution.Combining
import AttrGrammar.Proofs.Attribution.Grouping
import AttrGrammar.Proofs.Procedure.Document
import AttrGrammar.Proofs.Grammar.Staging
import AttrGrammar.Proofs.Grammar.Follow
import AttrGrammar.Proofs.Grammar.First
import AttrGrammar.Proofs.Grammar.Gaps
import AttrGrammar.Proofs.Grammar.History
import AttrGrammar.Proofs.Grammar.Built
import AttrGrammar.Proofs.Grammar.Language
import AttrGrammar.Proofs.Procedure.Checked
import AttrGrammar.Proofs.Json.Tight
import AttrGrammar.Proofs.Procedure.Lexemes
import AttrGrammar.Proofs.Procedure.Scanned
import AttrGrammar.Proofs.Procedure.Tiling
import AttrGrammar.Proofs.Procedure.Decoding
import AttrGrammar.Proofs.Procedure.Programs
import AttrGrammar.Proofs.Procedure.Statements
import AttrGrammar.Proofs.Procedure.Compiling
import AttrGrammar.Proofs.Procedure.Acceptance
import AttrGrammar.Proofs.Procedure.Laid
import AttrGrammar.Proofs.Procedure.Invariance
import AttrGrammar.Proofs.Procedure.Rendering
import AttrGrammar.Proofs.Procedure.Printing
import AttrGrammar.Proofs.Procedure.RoundTrip
import AttrGrammar.Proofs.Scanner
import AttrGrammar.Proofs.Grammar.Detour
import AttrGrammar.Proofs.Grammar.Order
import AttrGrammar.Proofs.Tree.Growth
import AttrGrammar.Proofs.Tree.Representation
import AttrGrammar.Proofs.Grammar.Invariant
import AttrGrammar.Proofs.Procedure.Syntax
import AttrGrammar.Proofs.Procedure.Names
import AttrGrammar.Proofs.Parsing.Course
import AttrGrammar.Proofs.Parsing.Termination
import AttrGrammar.Proofs.Parsing.ErrorPlace
import AttrGrammar.Proofs.Procedure.Bindings
import AttrGrammar.Proofs.Tree.Bulk
import AttrGrammar.Proofs.Procedure.AbstractSyntax
import AttrGrammar.Proofs.Procedure.Reference
import AttrGrammar.Proofs.Procedure.Equations
import AttrGrammar.Proofs.Pattern.Language
import AttrGrammar.Proofs.Pattern.Forms
import AttrGrammar.Proofs.Pattern.Compiled
import AttrGrammar.Proofs.Pattern.Searching
import AttrGrammar.Proofs.Pattern.Readers
import AttrGrammar.Proofs.Pattern.Written
import AttrGrammar.Proofs.Pattern.Enclosed
import AttrGrammar.Proofs.Pattern.Pasted
import AttrGrammar.Proofs.Pattern.Matching
import AttrGrammar.Proofs.Grammar.Composition
import AttrGrammar.Proofs.Pattern.Measuring
import AttrGrammar.Proofs.Pattern.Validity
import AttrGrammar.Proofs.Procedure.FirstLeaf
import AttrGrammar.Proofs.Tree.Walk
