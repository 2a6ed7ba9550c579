import TemplateAnalysis.Cache
import TemplateAnalysis.CommandLine.Action
import TemplateAnalysis.CommandLine.Dialogue
import TemplateAnalysis.CommandLine.Request
import TemplateAnalysis.CommandLine.Run
import TemplateAnalysis.CommandLine.Usage
import TemplateAnalysis.Decimal.Arithmetic
import TemplateAnalysis.Decimal.Binary64
import TemplateAnalysis.Decimal.Reading
import TemplateAnalysis.Decimal.Shortest
import TemplateAnalysis.Documents
import TemplateAnalysis.Expression.Literal
import TemplateAnalysis.Expression.Nesting
import TemplateAnalysis.Expression.Pairing
import TemplateAnalysis.Expression.Span
import TemplateAnalysis.Expression.Token
import TemplateAnalysis.Expression.Word
import TemplateAnalysis.Files.Path
import TemplateAnalysis.Files.Tree
import TemplateAnalysis.Fragment.Catalog
import TemplateAnalysis.Fragment.Declaration
import TemplateAnalysis.Fragment.Signature
import TemplateAnalysis.Json.Parser
import TemplateAnalysis.Json.Printer
import TemplateAnalysis.Json.Value
import TemplateAnalysis.Main
import TemplateAnalysis.Markup.Attribute
import TemplateAnalysis.Markup.CharacterName
import TemplateAnalysis.Markup.CharacterReference
import TemplateAnalysis.Markup.Tag
import TemplateAnalysis.Project
import TemplateAnalysis.Reference.Find
import TemplateAnalysis.Reference.Path
import TemplateAnalysis.Reference.Region
import TemplateAnalysis.Reference.Selector
import TemplateAnalysis.Resolver
import TemplateAnalysis.Session
import TemplateAnalysis.Store.DataFile
import TemplateAnalysis.Store.Steps
import TemplateAnalysis.Text.Blank
import TemplateAnalysis.Text.CodePoint
import TemplateAnalysis.Text.Digit
import TemplateAnalysis.Text.Lines
import TemplateAnalysis.Text.LowerCase
import TemplateAnalysis.Text.Quoted
import TemplateAnalysis.Text.Search
import TemplateAnalysis.Text.Utf8
import TemplateAnalysis.Text.WordChar
import TemplateAnalysis.Variable.Chain
import TemplateAnalysis.Variable.Iteration
import TemplateAnalysis.Variable.Match
import TemplateAnalysis.Variable.Occurrence
import TemplateAnalysis.Variable.Walk
import TemplateAnalysis.Proofs.Text.Search
import TemplateAnalysis.Proofs.Expression.Brackets
import TemplateAnalysis.Proofs.Expression.Lexing
import TemplateAnalysis.Proofs.Expression.Spans
import TemplateAnalysis.Proofs.Expression.Window
import TemplateAnalysis.Proofs.Expression.Standing
import TemplateAnalysis.Proofs.Expression.Assignment
import TemplateAnalysis.Proofs.Expression.Splitting
import TemplateAnalysis.Proofs.Expression.Escaping
import TemplateAnalysis.Proofs.Expression.Lexeme
import TemplateAnalysis.Proofs.Expression.Words
import TemplateAnalysis.Proofs.Expression.Quoting
import TemplateAnalysis.Proofs.Expression.Literals
import TemplateAnalysis.Proofs.Variable.Reading
import TemplateAnalysis.Proofs.Variable.Extraction
import TemplateAnalysis.Proofs.Decimal.Rounding
import TemplateAnalysis.Proofs.Text.CodePoint
import TemplateAnalysis.Proofs.Json.Pieces
import TemplateAnalysis.Proofs.Json.Value
import TemplateAnalysis.Proofs.Store.Filling
import TemplateAnalysis.Proofs.Store.Coverage
import TemplateAnalysis.Proofs.Store.Keeping
import TemplateAnalysis.Proofs.Decimal.Shortest
import TemplateAnalysis.Proofs.Decimal.Difference
import TemplateAnalysis.Proofs.Json.Numbers
import TemplateAnalysis.Proofs.Json.RoundTrip
import TemplateAnalysis.Proofs.Json.BrokenOff
import TemplateAnalysis.Proofs.Documents
import TemplateAnalysis.Proofs.Store.Generating
import TemplateAnalysis.Proofs.Store.Overwriting
import TemplateAnalysis.Proofs.Variable.Prefixes
import TemplateAnalysis.Proofs.Markup.Attribute
import TemplateAnalysis.Proofs.Reference.Region
import TemplateAnalysis.Proofs.Reference.Order
import TemplateAnalysis.Proofs.Reference.Path
import TemplateAnalysis.Proofs.Expression.Nested
import TemplateAnalysis.Proofs.Reference.Syntax
import TemplateAnalysis.Proofs.Reference.Holding
import TemplateAnalysis.Proofs.Reference.Target
import TemplateAnalysis.Proofs.Reference.Value
import TemplateAnalysis.Proofs.Reference.Page
import TemplateAnalysis.Proofs.Expression.Parameters
import TemplateAnalysis.Proofs.Variable.Names
import TemplateAnalysis.Proofs.Variable.Analysed
import TemplateAnalysis.Proofs.Variable.WholeNames
import TemplateAnalysis.Proofs.Variable.Stretches
import TemplateAnalysis.Proofs.Variable.Leading
import TemplateAnalysis.Proofs.Cache
import TemplateAnalysis.Proofs.Resolver.Answers
import TemplateAnalysis.Proofs.Resolver.Caching
import TemplateAnalysis.Proofs.Resolver.Catalog
import TemplateAnalysis.Proofs.Fragment.Catalog
import TemplateAnalysis.Proofs.Fragment.Declaring
import TemplateAnalysis.Proofs.Files.Listing
import TemplateAnalysis.Proofs.Resolver.Templates
import TemplateAnalysis.Proofs.Text.LowerCase
import TemplateAnalysis.Proofs.Files.NormalPath
import TemplateAnalysis.Proofs.Resolver.Definition
import TemplateAnalysis.Proofs.Reference.Line
import TemplateAnalysis.Proofs.Text.Lines
import TemplateAnalysis.Proofs.Markup.Tag
import TemplateAnalysis.Proofs.Reference.Opening
import TemplateAnalysis.Proofs.Reference.Origin
import TemplateAnalysis.Proofs.Cache.History
import TemplateAnalysis.Proofs.Resolver.Links
import TemplateAnalysis.Proofs.Resolver.Lookup
import TemplateAnalysis.Proofs.Fragment.Agreement
import TemplateAnalysis.Proofs.CommandLine.Usable
import TemplateAnalysis.Proofs.Json.Rows
import TemplateAnalysis.Proofs.Store.Keys
import TemplateAnalysis.Proofs.Store.Defining
import TemplateAnalysis.Proofs.Variable.Bindings
import TemplateAnalysis.Proofs.Expression.Enclosing
import TemplateAnalysis.Proofs.Variable.Accesses
import TemplateAnalysis.Proofs.Variable.Covering
import TemplateAnalysis.Proofs.Variable.Members
import TemplateAnalysis.Proofs.Expression.Balance
import TemplateAnalysis.Proofs.Variable.Constants
import TemplateAnalysis.Proofs.Variable.Messages
import TemplateAnalysis.Proofs.Reference.Trailing
import TemplateAnalysis.Proofs.Resolver.Selecting
import TemplateAnalysis.Proofs.Fragment.Signature
import TemplateAnalysis.Proofs.Store.Inserting
import TemplateAnalysis.Proofs.Reference.Spacing
import TemplateAnalysis.Proofs.Variable.Lookups
import TemplateAnalysis.Proofs.Variable.Walking
import TemplateAnalysis.Proofs.Expression.Closing
import TemplateAnalysis.Proofs.Expression.Pairing
import TemplateAnalysis.Proofs.Store.Resolving
