import PackageAlgebra.OrderedMap
import PackageAlgebra.Text.Printable
import PackageAlgebra.Text.IdentifierChar
import PackageAlgebra.Text.Lowercase
import PackageAlgebra.Text.Quoted
import PackageAlgebra.Text.Blank
import PackageAlgebra.Text.Pieces
import PackageAlgebra.Query.Parser
import PackageAlgebra.Graph.Cut
import PackageAlgebra.Pattern
import PackageAlgebra.Text.Uppercase
import PackageAlgebra.Context.Basic
import PackageAlgebra.Symbol.Dump
import PackageAlgebra.Load.FromRecords
import PackageAlgebra.Calculator.Evaluate
import PackageAlgebra.Calculator.Library
import PackageAlgebra.Document.Printer
import PackageAlgebra.Files.Counts
import PackageAlgebra.Snapshot.File
import PackageAlgebra.Report.Lines
import PackageAlgebra.Report.Info
import PackageAlgebra.Report.Rows
import PackageAlgebra.Service.Endpoint
import PackageAlgebra.Main
import PackageAlgebra.Load.StandardLibrary
import PackageAlgebra.Script.Imports
import PackageAlgebra.Symbol.CommandOracle
import PackageAlgebra.Shell.Programs
import PackageAlgebra.Symbol.SourceOracle
import PackageAlgebra.Proofs.Counts
import PackageAlgebra.Proofs.Cut.Links
import PackageAlgebra.Proofs.Cut.Cascade
import PackageAlgebra.Proofs.Cut.GraphTable
import PackageAlgebra.Proofs.Cut.Rows
import PackageAlgebra.Proofs.Cut.Dominance
import PackageAlgebra.Proofs.Cut.Nesting
import PackageAlgebra.Proofs.Query.Grammar
import PackageAlgebra.Proofs.Query.Nesting
import PackageAlgebra.Proofs.Query.Parentheses
import PackageAlgebra.Proofs.Package.Pruning
import PackageAlgebra.Proofs.Package.Universe
import PackageAlgebra.Proofs.Package.Barrier
import PackageAlgebra.Proofs.Package.Reduction
import PackageAlgebra.Proofs.Package.Answers
import PackageAlgebra.Proofs.Package.Survey
import PackageAlgebra.Proofs.Query.Scanning
import PackageAlgebra.Proofs.Query.Printing
import PackageAlgebra.Proofs.Calculator.Canonical
import PackageAlgebra.Proofs.Graph.Members
import PackageAlgebra.Proofs.Text.Case
import PackageAlgebra.Proofs.Text.Cuts
import PackageAlgebra.Proofs.Context.Entries
import PackageAlgebra.Proofs.Context.Scopes
import PackageAlgebra.Proofs.Calculator.Steps
import PackageAlgebra.Proofs.Calculator.Groups
import PackageAlgebra.Proofs.Calculator.Failures
import PackageAlgebra.Proofs.Calculator.Runs
import PackageAlgebra.Proofs.Context.Sharing
import PackageAlgebra.Proofs.Context.Keys
import PackageAlgebra.Proofs.Calculator.Sharing
import PackageAlgebra.Proofs.Calculator.Bindings
import PackageAlgebra.Proofs.Load.Records
import PackageAlgebra.Proofs.Load.History
import PackageAlgebra.Proofs.Load.Variants
import PackageAlgebra.Proofs.Text.Dotted
import PackageAlgebra.Proofs.Load.Modules
import PackageAlgebra.Proofs.Load.Caches
import PackageAlgebra.Proofs.Load.Widening
import PackageAlgebra.Proofs.Symbol.Dump
import PackageAlgebra.Proofs.Symbol.Written
import PackageAlgebra.Proofs.Symbol.Lookups
import PackageAlgebra.Proofs.Package.Contents
import PackageAlgebra.Proofs.Calculator.Origins
import PackageAlgebra.Proofs.Calculator.StandardLibrary
import PackageAlgebra.Proofs.Query.Spelling
import PackageAlgebra.Proofs.Symbol.Merging
import PackageAlgebra.Proofs.Query.Parsed
import PackageAlgebra.Proofs.Query.Ambiguity
import PackageAlgebra.Proofs.Query.Assignments
import PackageAlgebra.Proofs.Package.Closure
import PackageAlgebra.Proofs.Package.Sources
import PackageAlgebra.Proofs.Package.Leading
import PackageAlgebra.Proofs.Library.Moves
import PackageAlgebra.Proofs.Library.Promise
import PackageAlgebra.Proofs.Library.Once
import PackageAlgebra.Proofs.Load.Resolving
import PackageAlgebra.Proofs.Load.TestNames
import PackageAlgebra.Proofs.Calculator.Service
import PackageAlgebra.Proofs.Package.Algebra
import PackageAlgebra.Proofs.Calculator.SideBySide
import PackageAlgebra.Proofs.Package.Modules
import PackageAlgebra.Proofs.Calculator.Modules
import PackageAlgebra.Proofs.Package.Agreement
import PackageAlgebra.Proofs.Calculator.Steady
import PackageAlgebra.Proofs.Calculator.Joins
import PackageAlgebra.Proofs.Calculator.Selections
import PackageAlgebra.Proofs.Load.Fitting
import PackageAlgebra.Proofs.Symbol.KeptAlive
import PackageAlgebra.Proofs.Calculator.TestLookups
import PackageAlgebra.Proofs.Calculator.TestPaths
import PackageAlgebra.Proofs.Package.Lines
import PackageAlgebra.Proofs.Report.Columns
import PackageAlgebra.Proofs.Script.Attribution
import PackageAlgebra.Proofs.Script.References
import PackageAlgebra.Proofs.Files.Paths
import PackageAlgebra.Proofs.Load.Placement
import PackageAlgebra.Proofs.Cut.Moments
import PackageAlgebra.Proofs.Cut.Operations
import PackageAlgebra.Proofs.Query.Positions
import PackageAlgebra.Proofs.Query.Progress
import PackageAlgebra.Proofs.Files.Directories
import PackageAlgebra.Proofs.Files.PackageNames
