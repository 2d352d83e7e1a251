import WireSchema.Primitive
import WireSchema.Wire.Error
import WireSchema.Wire.Scalar
import WireSchema.Wire.Reader
import WireSchema.Wire.Writer
import WireSchema.Number.Power
import WireSchema.Number.Binary
import WireSchema.Number.Decimal
import WireSchema.Text.Quoted
import WireSchema.Json.Basic
import WireSchema.Json.Literal
import WireSchema.Json.Parser
import WireSchema.Json.Printer
import WireSchema.Text.Blank
import WireSchema.Schema.Tag
import WireSchema.Schema.Path
import WireSchema.Code.Writer
import WireSchema.Schema.Ty
import WireSchema.Schema.Basic
import WireSchema.Text.Bounds
import WireSchema.Text.HiddenTable
import WireSchema.Text.Visible
import WireSchema.Code.Language
import WireSchema.Error
import WireSchema.Text.Digit
import WireSchema.Text.CaseTable
import WireSchema.Text.Case
import WireSchema.Naming.Case
import WireSchema.Naming.Identifier
import WireSchema.Source.Token
import WireSchema.Result
import WireSchema.Source.Expr
import WireSchema.Source.Cursor
import WireSchema.Source.Grammar
import WireSchema.Source.Resolve
import WireSchema.Layout.Rounds
import WireSchema.Layout.Fixed
import WireSchema.Layout.Canonical
import WireSchema.Layout.Run
import WireSchema.Layout.Graph
import WireSchema.Layout.Analysis
import WireSchema.Schema.Check
import WireSchema.Data.Fit
import WireSchema.Data.Check
import WireSchema.Data.Value
import WireSchema.Data.Decode
import WireSchema.Compile
import WireSchema.Code.Options
import WireSchema.Code.Fresh
import WireSchema.Code.Selection
import WireSchema.Code.RustRoutine
import WireSchema.Text.Lines
import WireSchema.Code.RustText
import WireSchema.Code.RustFile
import WireSchema.Code.CppRuntime
import WireSchema.Code.CppRoutine
import WireSchema.Code.CppText
import WireSchema.Code.CppFile
import WireSchema.Code.Generate
import WireSchema.Journal
import WireSchema.CommandLine.Argument
import WireSchema.CommandLine.Command
import WireSchema.CommandLine.Location
import WireSchema.CommandLine.Run
import WireSchema.CommandLine.Folder
import WireSchema.Main
import WireSchema.Proofs.Rounding
import WireSchema.Proofs.Sequence
import WireSchema.Proofs.Lookup
import WireSchema.Proofs.Spelling
import WireSchema.Proofs.Written
import WireSchema.Proofs.Recovered
import WireSchema.Proofs.Resolved
import WireSchema.Proofs.Denotation
import WireSchema.Proofs.Layering
import WireSchema.Proofs.Walks
import WireSchema.Proofs.Rearranged
import WireSchema.Proofs.Typed
import WireSchema.Proofs.Conforming
import WireSchema.Proofs.Reading
import WireSchema.Proofs.Decoding
import WireSchema.Proofs.Documents
import WireSchema.Proofs.Parsing
import WireSchema.Proofs.RoundTrip
import WireSchema.Proofs.SelfDelimiting
import WireSchema.Proofs.Members
import WireSchema.Proofs.Sizes
import WireSchema.Proofs.Faults
import WireSchema.Proofs.SourceOrder
import WireSchema.Proofs.Writing
import WireSchema.Proofs.Identifiers
import WireSchema.Proofs.WellFormed
import WireSchema.Proofs.Reachable
import WireSchema.Proofs.LegalNames
import WireSchema.Proofs.RustMeaning
import WireSchema.Proofs.RustScope
import WireSchema.Proofs.RustEncoder
import WireSchema.Proofs.Blocks
import WireSchema.Proofs.Buffers
import WireSchema.Proofs.Runs
import WireSchema.Proofs.RustStatements
import WireSchema.Proofs.RustDecoder
import WireSchema.Proofs.WireOperations
import WireSchema.Proofs.WireProgram
import WireSchema.Proofs.TypeNames
import WireSchema.Proofs.RustVariables
import WireSchema.Proofs.RustHygiene
import WireSchema.Proofs.CanonicalOrder
import WireSchema.Proofs.Cycles
import WireSchema.Proofs.LayoutFacts
import WireSchema.Proofs.Embedding
import WireSchema.Proofs.RustNumbering
import WireSchema.Proofs.CppNumbering
import WireSchema.Proofs.Extension
import WireSchema.Proofs.BulkArrays
import WireSchema.Proofs.CppMembers
import WireSchema.Proofs.SizeSums
import WireSchema.Proofs.RustExpressions
import WireSchema.Proofs.RustSizeText
import WireSchema.Proofs.RustSizes
import WireSchema.Proofs.DependencyOrder
import WireSchema.Proofs.Flaws
import WireSchema.Proofs.Occurrences
import WireSchema.Proofs.Indifference
import WireSchema.Proofs.MaximalRuns
import WireSchema.Proofs.StringLiterals
import WireSchema.Proofs.FileLines
import WireSchema.Proofs.Tiling
import WireSchema.Proofs.TypeSpelling
import WireSchema.Proofs.SerdeKeys
import WireSchema.Proofs.SnakeCase
import WireSchema.Proofs.TagLookup
import WireSchema.Proofs.ReadSessions
import WireSchema.Proofs.ParserSteps
import WireSchema.Proofs.ErrorPositions
import WireSchema.Proofs.ParserProgress
