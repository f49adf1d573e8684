import AddonBundle.Assoc
import AddonBundle.Bundle.Addon
import AddonBundle.Bundle.Catalogs
import AddonBundle.Bundle.Libraries
import AddonBundle.Bundle.Manifest
import AddonBundle.Bundle.OnDisk
import AddonBundle.Bundle.Restyling
import AddonBundle.Bundle.Run
import AddonBundle.Cli.Arguments
import AddonBundle.Cli.Clone
import AddonBundle.Cli.Command
import AddonBundle.Cli.Invocation
import AddonBundle.Cli.Program
import AddonBundle.Cli.Pull
import AddonBundle.Cli.Scan
import AddonBundle.Cli.Workspace
import AddonBundle.Config.Allowlist
import AddonBundle.Config.Basic
import AddonBundle.Config.Load
import AddonBundle.Config.Setting
import AddonBundle.Console
import AddonBundle.Decimal.Double
import AddonBundle.Decimal.Shortest
import AddonBundle.Disk
import AddonBundle.Fault
import AddonBundle.FileKind
import AddonBundle.Json.Printer
import AddonBundle.Json.Reader
import AddonBundle.Json.Value
import AddonBundle.License
import AddonBundle.Limit
import AddonBundle.Location
import AddonBundle.Log
import AddonBundle.Main
import AddonBundle.Path
import AddonBundle.Script.AssetTable
import AddonBundle.Script.Idioms
import AddonBundle.Script.Library
import AddonBundle.Script.Linking
import AddonBundle.Script.Marker
import AddonBundle.Script.PathSite
import AddonBundle.Session
import AddonBundle.Snapshot
import AddonBundle.Storage
import AddonBundle.Stylesheet.Block
import AddonBundle.Stylesheet.ClassMapping
import AddonBundle.Stylesheet.Flatten
import AddonBundle.Stylesheet.Import
import AddonBundle.Stylesheet.Quoting
import AddonBundle.Stylesheet.Restyle
import AddonBundle.Stylesheet.Selector
import AddonBundle.Stylesheet.Selector.Reader
import AddonBundle.Stylesheet.Selector.Word
import AddonBundle.Stylesheet.Token
import AddonBundle.Stylesheet.Variable
import AddonBundle.Text.Basic
import AddonBundle.Text.CodePoint
import AddonBundle.Text.Digit
import AddonBundle.Text.Lines
import AddonBundle.Text.Lower
import AddonBundle.Text.Markup
import AddonBundle.Text.Piece
import AddonBundle.Text.Printable
import AddonBundle.Text.Quoted
import AddonBundle.Text.Style
import AddonBundle.Text.Utf8
import AddonBundle.Text.Word
import AddonBundle.Toml.Document
import AddonBundle.Toml.Quoted
import AddonBundle.Toml.Reader
import AddonBundle.Toml.Scalar
import AddonBundle.Toml.Value
import AddonBundle.Trace
import AddonBundle.Tree
import AddonBundle.Proofs.Path
import AddonBundle.Proofs.Tree
import AddonBundle.Proofs.Markup
import AddonBundle.Proofs.Session
import AddonBundle.Proofs.Script.Load
import AddonBundle.Proofs.Script.AssetTable
import AddonBundle.Proofs.Script.Media
import AddonBundle.Proofs.Bundle.Linking
import AddonBundle.Proofs.Bundle.Contents
import AddonBundle.Proofs.Bundle.Making
import AddonBundle.Proofs.Bundle.Steps
import AddonBundle.Proofs.Bundle.Run
import AddonBundle.Proofs.Bundle.Imports
import AddonBundle.Proofs.Stylesheet.Renaming
import AddonBundle.Proofs.Stylesheet.Lengths
import AddonBundle.Proofs.Stylesheet.Token
import AddonBundle.Proofs.Stylesheet.Reading
import AddonBundle.Proofs.Stylesheet.NormalText
import AddonBundle.Proofs.Stylesheet.ClassMapping
import AddonBundle.Proofs.Stylesheet.Restyle
import AddonBundle.Proofs.Bundle.Denotation
import AddonBundle.Proofs.Stylesheet.Inlining
import AddonBundle.Proofs.Stylesheet.Nesting
import AddonBundle.Proofs.Bundle.Plan
import AddonBundle.Proofs.Bundle.Order
import AddonBundle.Proofs.Bundle.Failing
import AddonBundle.Proofs.CodePoint
import AddonBundle.Proofs.Json.Grammar
import AddonBundle.Proofs.Json.Number
import AddonBundle.Proofs.Json.Reading
import AddonBundle.Proofs.Json.Minimal
import AddonBundle.Proofs.Bundle.Fixed
import AddonBundle.Proofs.Bundle.Escaping
import AddonBundle.Proofs.Stylesheet.Brackets
import AddonBundle.Proofs.Stylesheet.Rendering
import AddonBundle.Proofs.Bundle.Generated
import AddonBundle.Proofs.Stylesheet.Lexeme
import AddonBundle.Proofs.Stylesheet.Comments
import AddonBundle.Proofs.Bundle.Copying
import AddonBundle.Proofs.Bundle.Repeating
import AddonBundle.Proofs.Bundle.Confining
import AddonBundle.Proofs.Disk.Simulation
import AddonBundle.Proofs.Span
import AddonBundle.Proofs.Script.Operand
import AddonBundle.Proofs.Script.PathSite
import AddonBundle.Proofs.Script.Nested
import AddonBundle.Proofs.Lines
import AddonBundle.Proofs.Script.SiteLines
import AddonBundle.Proofs.Script.ImportLines
import AddonBundle.Proofs.Cli.Scan
import AddonBundle.Proofs.Script.LookUp
import AddonBundle.Proofs.Stylesheet.DepthFirst
import AddonBundle.Proofs.Stylesheet.BlockSpan
import AddonBundle.Proofs.Stylesheet.TopLevel
import AddonBundle.Proofs.Stylesheet.Variable
import AddonBundle.Proofs.Script.Marker
import AddonBundle.Proofs.Script.StaticImport
import AddonBundle.Proofs.Stylesheet.ClassToken
import AddonBundle.Proofs.Stylesheet.Balanced
import AddonBundle.Proofs.Stylesheet.Items
import AddonBundle.Proofs.Json.Limits
import AddonBundle.Proofs.Json.Lines
import AddonBundle.Proofs.Config.Basic
import AddonBundle.Proofs.Config.Allowlist
import AddonBundle.Proofs.Config.Load
import AddonBundle.Proofs.Tree.Coherence
import AddonBundle.Proofs.Trace
import AddonBundle.Proofs.Bundle.Phases
import AddonBundle.Proofs.Utf8
