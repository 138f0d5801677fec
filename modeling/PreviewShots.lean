import PreviewShots.Command
import PreviewShots.Config
import PreviewShots.Declaration
import PreviewShots.Dump.Declaration
import PreviewShots.Dump.Entry
import PreviewShots.Dump.Literal
import PreviewShots.Dump.Table
import PreviewShots.Dump.Type
import PreviewShots.Fault
import PreviewShots.FileName
import PreviewShots.FileTree
import PreviewShots.Fragment
import PreviewShots.Host
import PreviewShots.Json.Agreement
import PreviewShots.Json.Basic
import PreviewShots.Json.Compact
import PreviewShots.Json.Display
import PreviewShots.Json.Escape
import PreviewShots.Json.Indented
import PreviewShots.Json.Reader
import PreviewShots.Keyed
import PreviewShots.Label
import PreviewShots.Literal.Basic
import PreviewShots.Literal.Equality
import PreviewShots.Literal.Source
import PreviewShots.Main
import PreviewShots.Marker.Classification
import PreviewShots.Marker.Registry
import PreviewShots.Marker.Walk
import PreviewShots.Name.Basic
import PreviewShots.Name.Clash
import PreviewShots.Name.Implicit
import PreviewShots.Name.Sorted
import PreviewShots.Notice
import PreviewShots.Number.Binary64
import PreviewShots.Number.Shortest
import PreviewShots.Output
import PreviewShots.Path
import PreviewShots.Proofs.FileTree
import PreviewShots.Proofs.Host
import PreviewShots.Proofs.Label
import PreviewShots.Proofs.Marker.Answers
import PreviewShots.Proofs.Marker.Graph
import PreviewShots.Proofs.Marker.Query
import PreviewShots.Proofs.Marker.Registry
import PreviewShots.Proofs.Marker.Rounds
import PreviewShots.Proofs.Marker.Verdict
import PreviewShots.Proofs.Marker.Walk
import PreviewShots.Proofs.Plan
import PreviewShots.Proofs.Resolution
import PreviewShots.Proofs.Search
import PreviewShots.Proofs.Selection
import PreviewShots.Proofs.Synthesis
import PreviewShots.Proofs.UnitWriter
import PreviewShots.Proofs.VisibilityReport
import PreviewShots.Resolution
import PreviewShots.Search
import PreviewShots.Selection
import PreviewShots.Session
import PreviewShots.Settings
import PreviewShots.StringLiteral
import PreviewShots.SymbolTable
import PreviewShots.Synthesis
import PreviewShots.Template
import PreviewShots.TestFile
import PreviewShots.Text.Alphanumeric
import PreviewShots.Text.Basic
import PreviewShots.Text.Blank
import PreviewShots.Text.DecimalDigit
import PreviewShots.Text.Lead
import PreviewShots.Text.Lines
import PreviewShots.Text.Lowercase
import PreviewShots.Text.Printable
import PreviewShots.Text.Range
import PreviewShots.Text.Segment
import PreviewShots.Text.Uppercase
import PreviewShots.Text.Utf8
import PreviewShots.TypeRef.Basic
import PreviewShots.TypeRef.Notation
import PreviewShots.UnitWriter
import PreviewShots.VisibilityFix
import PreviewShots.VisibilityReport
import PreviewShots.Proofs.Session
import PreviewShots.Proofs.Name
import PreviewShots.Proofs.Spelling
import PreviewShots.Proofs.TestFile
import PreviewShots.Proofs.Round
import PreviewShots.Proofs.Scan
import PreviewShots.Proofs.Rounds
import PreviewShots.Proofs.TypeRef.RoundTrip
import PreviewShots.Proofs.WriteOnce
import PreviewShots.Proofs.Repeat
import PreviewShots.Proofs.Retry
import PreviewShots.Proofs.ReportMerge
import PreviewShots.Proofs.Grouping
import PreviewShots.Proofs.Dependence
import PreviewShots.Proofs.Generation
import PreviewShots.Proofs.Manifest
import PreviewShots.Proofs.Rearrangement
import PreviewShots.Proofs.Json.Reader
import PreviewShots.Proofs.Json.Agreement
import PreviewShots.Proofs.Literal.Equality
import PreviewShots.Proofs.Literal.Comparison
import PreviewShots.Proofs.References
import PreviewShots.Proofs.Footprint
import PreviewShots.Proofs.VisibilityFix
import PreviewShots.Proofs.Command
import PreviewShots.Proofs.KeptArguments
import PreviewShots.Proofs.Revisits
import PreviewShots.Proofs.KeywordSubstitution
import PreviewShots.Proofs.KeptText
import PreviewShots.Proofs.ResumedFix
import PreviewShots.Proofs.Clashes
import PreviewShots.Proofs.StringLiteral
import PreviewShots.Proofs.StringArgument
import PreviewShots.Proofs.Json.Strings
import PreviewShots.Proofs.Json.RoundTrip
import PreviewShots.Proofs.ManifestText
import PreviewShots.Proofs.Lowercase
import PreviewShots.Proofs.Exclusion
import PreviewShots.Proofs.Dump.Defects
import PreviewShots.Proofs.Loading
import PreviewShots.Proofs.TypeRef.Gaps
