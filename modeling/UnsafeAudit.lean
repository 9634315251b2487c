import UnsafeAudit.Attribution.Aggregate
import UnsafeAudit.Attribution.Owners
import UnsafeAudit.Attribution.TargetFiles
import UnsafeAudit.Audit.Basic
import UnsafeAudit.Build.CargoArgs
import UnsafeAudit.Build.CompiledFiles
import UnsafeAudit.Build.Driver
import UnsafeAudit.Build.Invocation
import UnsafeAudit.Build.Script
import UnsafeAudit.Build.Session
import UnsafeAudit.Build.SharedContext
import UnsafeAudit.Build.Spool
import UnsafeAudit.CommandLine.Arguments
import UnsafeAudit.CommandLine.Flags
import UnsafeAudit.CommandLine.Program
import UnsafeAudit.CommandLine.Reads
import UnsafeAudit.CommandLine.Request
import UnsafeAudit.CommandLine.Stop
import UnsafeAudit.Config.Basic
import UnsafeAudit.Config.Load
import UnsafeAudit.Decimal.Binary64
import UnsafeAudit.Decimal.Shortest
import UnsafeAudit.DepInfo.Basic
import UnsafeAudit.DepInfo.Files
import UnsafeAudit.Failure
import UnsafeAudit.FileSystem.Basic
import UnsafeAudit.FileSystem.Error
import UnsafeAudit.FileSystem.Listing
import UnsafeAudit.FileSystem.Resolve
import UnsafeAudit.Graph.Basic
import UnsafeAudit.Graph.Kind
import UnsafeAudit.Json.Basic
import UnsafeAudit.Json.Decode
import UnsafeAudit.Json.Reader
import UnsafeAudit.Json.Writer
import UnsafeAudit.Main
import UnsafeAudit.Metadata.Basic
import UnsafeAudit.Metadata.Cargo
import UnsafeAudit.Metadata.Load
import UnsafeAudit.Metadata.Package
import UnsafeAudit.Metadata.Reading
import UnsafeAudit.Package.Basic
import UnsafeAudit.Package.Codec
import UnsafeAudit.Path.Basic
import UnsafeAudit.Proofs.Attribution.Counted
import UnsafeAudit.Proofs.Attribution.Failing
import UnsafeAudit.Proofs.Attribution.Generated
import UnsafeAudit.Proofs.Attribution.Growing
import UnsafeAudit.Proofs.Attribution.Listed
import UnsafeAudit.Proofs.Attribution.Modes
import UnsafeAudit.Proofs.Attribution.Owners
import UnsafeAudit.Proofs.Attribution.Partition
import UnsafeAudit.Proofs.Attribution.Roots
import UnsafeAudit.Proofs.Attribution.Scanned
import UnsafeAudit.Proofs.Attribution.Shown
import UnsafeAudit.Proofs.Attribution.Spelling
import UnsafeAudit.Proofs.Attribution.Tolerated
import UnsafeAudit.Proofs.Audit.Tree
import UnsafeAudit.Proofs.Build.CommandLines
import UnsafeAudit.Proofs.Build.CompiledFiles
import UnsafeAudit.Proofs.Build.Courses
import UnsafeAudit.Proofs.Build.Deliveries
import UnsafeAudit.Proofs.Build.Encoded
import UnsafeAudit.Proofs.Build.Gathered
import UnsafeAudit.Proofs.Build.Handles
import UnsafeAudit.Proofs.Build.Operations
import UnsafeAudit.Proofs.Build.OptionPositions
import UnsafeAudit.Proofs.Build.Recorded
import UnsafeAudit.Proofs.Build.Spooled
import UnsafeAudit.Proofs.Build.Workers
import UnsafeAudit.Proofs.Build.Writers
import UnsafeAudit.Proofs.Decimal.Rounding
import UnsafeAudit.Proofs.Decimal.Shortest
import UnsafeAudit.Proofs.DepInfo.Continued
import UnsafeAudit.Proofs.DepInfo.Found
import UnsafeAudit.Proofs.DepInfo.Listings
import UnsafeAudit.Proofs.DepInfo.Printed
import UnsafeAudit.Proofs.FileSystem.Arrival
import UnsafeAudit.Proofs.FileSystem.Bare
import UnsafeAudit.Proofs.FileSystem.Below
import UnsafeAudit.Proofs.FileSystem.Canonical
import UnsafeAudit.Proofs.FileSystem.Frame
import UnsafeAudit.Proofs.FileSystem.Lookup
import UnsafeAudit.Proofs.FileSystem.Names
import UnsafeAudit.Proofs.FileSystem.Unresolved
import UnsafeAudit.Proofs.FileSystem.Walk
import UnsafeAudit.Proofs.FileSystem.Writing
import UnsafeAudit.Proofs.Graph.Adjacency
import UnsafeAudit.Proofs.Graph.Calls
import UnsafeAudit.Proofs.Graph.Reach
import UnsafeAudit.Proofs.Graph.Sound
import UnsafeAudit.Proofs.Json.Decoded
import UnsafeAudit.Proofs.Json.Numbers
import UnsafeAudit.Proofs.Json.RoundTrip
import UnsafeAudit.Proofs.Loops
import UnsafeAudit.Proofs.Metadata.Assembly
import UnsafeAudit.Proofs.Metadata.Closure
import UnsafeAudit.Proofs.Metadata.Dangling
import UnsafeAudit.Proofs.Metadata.Declared
import UnsafeAudit.Proofs.Metadata.Dependencies
import UnsafeAudit.Proofs.Metadata.Dependents
import UnsafeAudit.Proofs.Metadata.Details
import UnsafeAudit.Proofs.Metadata.Edges
import UnsafeAudit.Proofs.Metadata.Forward
import UnsafeAudit.Proofs.Metadata.Inverted
import UnsafeAudit.Proofs.Metadata.Loaded
import UnsafeAudit.Proofs.Metadata.Loading
import UnsafeAudit.Proofs.Metadata.Shapes
import UnsafeAudit.Proofs.Metadata.Unusable
import UnsafeAudit.Proofs.Path.Order
import UnsafeAudit.Proofs.Path.Spelled
import UnsafeAudit.Proofs.Report.Coherence
import UnsafeAudit.Proofs.Report.Colours
import UnsafeAudit.Proofs.Report.Restored
import UnsafeAudit.Proofs.Report.Timestamps
import UnsafeAudit.Proofs.Report.Written
import UnsafeAudit.Proofs.Search.BreadthFirst
import UnsafeAudit.Proofs.Search.FirstOccurrences
import UnsafeAudit.Proofs.Source.Counted
import UnsafeAudit.Proofs.Source.Forbidden
import UnsafeAudit.Proofs.Table.Keys
import UnsafeAudit.Proofs.Text.Lines
import UnsafeAudit.Proofs.Text.Styled
import UnsafeAudit.Proofs.Text.Utf8
import UnsafeAudit.Proofs.Tree.Branches
import UnsafeAudit.Proofs.Tree.Drawn
import UnsafeAudit.Proofs.Tree.Growth
import UnsafeAudit.Proofs.Tree.Lines
import UnsafeAudit.Proofs.Tree.Outline
import UnsafeAudit.Proofs.Tree.Pruned
import UnsafeAudit.Proofs.Tree.Reversed
import UnsafeAudit.Proofs.Tree.Shown
import UnsafeAudit.Proofs.Tree.Trails
import UnsafeAudit.Proofs.Tree.Truncated
import UnsafeAudit.Proofs.Verdict.FurtherFiles
import UnsafeAudit.Report.Basic
import UnsafeAudit.Report.Document
import UnsafeAudit.Report.Format
import UnsafeAudit.Report.Pattern
import UnsafeAudit.Report.Summary
import UnsafeAudit.Report.Terminal
import UnsafeAudit.Report.Timestamp
import UnsafeAudit.Rust.Grammar
import UnsafeAudit.Rust.Grammar.Expressions
import UnsafeAudit.Rust.Grammar.Items
import UnsafeAudit.Rust.Grammar.Patterns
import UnsafeAudit.Rust.Grammar.Rule
import UnsafeAudit.Rust.Grammar.Types
import UnsafeAudit.Rust.Token
import UnsafeAudit.Rust.Tree
import UnsafeAudit.Source.Counts
import UnsafeAudit.Source.Scan
import UnsafeAudit.Source.Scanner
import UnsafeAudit.Table
import UnsafeAudit.Text.Digits
import UnsafeAudit.Text.Lines
import UnsafeAudit.Text.Markup
import UnsafeAudit.Text.Printable
import UnsafeAudit.Text.Quoted
import UnsafeAudit.Text.Styled
import UnsafeAudit.Text.Utf8
import UnsafeAudit.Text.Width
import UnsafeAudit.Tree.Codec
import UnsafeAudit.Tree.Line
import UnsafeAudit.Tree.Vines
import UnsafeAudit.Tree.Walk
import UnsafeAudit.Verdict.Basic
import UnsafeAudit.Verdict.Codec
import UnsafeAudit.Yaml.Cursor
import UnsafeAudit.Yaml.Implicit
import UnsafeAudit.Yaml.Node
import UnsafeAudit.Yaml.Scalar
import UnsafeAudit.Yaml.ScalarToken
import UnsafeAudit.Yaml.ScalarValue
import UnsafeAudit.Yaml.Token
import UnsafeAudit.Yaml.Value
import UnsafeAudit.Yaml.Writer
import UnsafeAudit.Proofs.FileSystem.Resolvable
import UnsafeAudit.Proofs.Attribution.Precedence
import UnsafeAudit.Proofs.CommandLine.Overrides
import UnsafeAudit.Proofs.Config.Nearest
