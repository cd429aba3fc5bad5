import Scaffold.Archive.Codec
import Scaffold.Archive.Crc32
import Scaffold.Archive.Entry
import Scaffold.Archive.Header
import Scaffold.Archive.Reader
import Scaffold.Archive.Sink
import Scaffold.Archive.Writer
import Scaffold.Attempt
import Scaffold.Bundled.Build
import Scaffold.Bundled.Docker
import Scaffold.Bundled.Notes
import Scaffold.Bundled.Plain
import Scaffold.Bundled.Wrapper
import Scaffold.CommandLine.Generate
import Scaffold.CommandLine.Init
import Scaffold.CommandLine.Invocation
import Scaffold.CommandLine.Options
import Scaffold.CommandLine.Output
import Scaffold.CommandLine.Program
import Scaffold.CommandLine.Terminal
import Scaffold.Decimal.Reader
import Scaffold.Decimal.Shortest
import Scaffold.Decimal.Style
import Scaffold.Digest
import Scaffold.Error
import Scaffold.Files.Path
import Scaffold.Files.Tree
import Scaffold.Json.Fault
import Scaffold.Json.Reader
import Scaffold.Json.Scan
import Scaffold.Json.Skip
import Scaffold.Json.Value
import Scaffold.Log
import Scaffold.Main
import Scaffold.Pipeline.Basic
import Scaffold.Pipeline.Layout
import Scaffold.Project.Document
import Scaffold.Project.Sources
import Scaffold.Settings.Basic
import Scaffold.Settings.Document
import Scaffold.Settings.File
import Scaffold.Settings.Flavor
import Scaffold.Settings.JavaPackage
import Scaffold.Size
import Scaffold.Store.Basic
import Scaffold.Store.Bundled
import Scaffold.Store.Memory
import Scaffold.Template.Context
import Scaffold.Template.Escape
import Scaffold.Template.Helper
import Scaffold.Template.Literal
import Scaffold.Template.Piece
import Scaffold.Template.Problem
import Scaffold.Template.Reader
import Scaffold.Template.Render
import Scaffold.Template.Scope
import Scaffold.Template.Syntax
import Scaffold.Template.Tag
import Scaffold.Text.Blank
import Scaffold.Text.Lines
import Scaffold.Text.Printable
import Scaffold.Text.Quoted
import Scaffold.Text.Utf8
import Scaffold.Traced
import Scaffold.Proofs.Archive.Contents
import Scaffold.Proofs.Archive.ReadBack
import Scaffold.Proofs.Archive.History
import Scaffold.Proofs.Pipeline.Assembled
import Scaffold.Proofs.Files.Node
import Scaffold.Proofs.Files.Parents
import Scaffold.Proofs.Files.Walk
import Scaffold.Proofs.Files.Changes
import Scaffold.Proofs.CommandLine.Making
import Scaffold.Proofs.CommandLine.Outputs
import Scaffold.Proofs.Text.Encoded
import Scaffold.Proofs.Archive.Losses
import Scaffold.Proofs.Json.Grammar
import Scaffold.Proofs.Json.Strings
import Scaffold.Proofs.Json.Values
import Scaffold.Proofs.Settings.Document
import Scaffold.Proofs.Settings.File
import Scaffold.Proofs.Template.Names
import Scaffold.Proofs.Template.Stencil
import Scaffold.Proofs.Template.Markup
import Scaffold.Proofs.Template.BuildFile
import Scaffold.Proofs.Template.Rendered
import Scaffold.Proofs.Template.Missing
import Scaffold.Proofs.Archive.Paths
import Scaffold.Proofs.Pipeline.Outcome
import Scaffold.Proofs.Pipeline.Edits
import Scaffold.Proofs.Files.Leaves
import Scaffold.Proofs.Files.Named
import Scaffold.Proofs.Project.Sources
import Scaffold.Proofs.Pipeline.Bundled
import Scaffold.Proofs.Settings.JavaPackage
import Scaffold.Proofs.Pipeline.Duplicates
import Scaffold.Proofs.Archive.Attempts
import Scaffold.Proofs.Pipeline.Overrides
import Scaffold.Proofs.CommandLine.Asking
import Scaffold.Proofs.Pipeline.Failures
import Scaffold.Proofs.Pipeline.Extras
import Scaffold.Proofs.CommandLine.Resolved
import Scaffold.Proofs.CommandLine.Sessions
import Scaffold.Proofs.Pipeline.Repeated
import Scaffold.Proofs.Pipeline.Application
import Scaffold.Proofs.Files.Alike
import Scaffold.Proofs.Files.Below
import Scaffold.Proofs.Files.Halts
import Scaffold.Proofs.Project.Collected
import Scaffold.Proofs.Store.Overlays
import Scaffold.Proofs.Store.Directory
import Scaffold.Proofs.Store.History
import Scaffold.Proofs.Store.Texts
import Scaffold.Proofs.Pipeline.LongPackages
import Scaffold.Proofs.Pipeline.BlankCoordinates
import Scaffold.Proofs.Size.Rounding
import Scaffold.Proofs.Size.Reading
import Scaffold.Proofs.Size.Accuracy
import Scaffold.Proofs.Text.Cut
import Scaffold.Proofs.Pipeline.DerivedProperties
import Scaffold.Proofs.Pipeline.LogLines
