import DesignTokens.Number.Literal
import DesignTokens.Entries
import DesignTokens.Text.Blank
import DesignTokens.Text.Cut
import DesignTokens.Number.Shortest
import DesignTokens.Number.Basic
import DesignTokens.Tree.Basic
import DesignTokens.Json.Printer
import DesignTokens.Json.Reader
import DesignTokens.Text.Pieces
import DesignTokens.Pointer
import DesignTokens.Tree.Merge
import DesignTokens.Edit.Basic
import DesignTokens.Edit.Position
import DesignTokens.Edit.Apply
import DesignTokens.Range.Checkpoint
import DesignTokens.Range.Walk
import DesignTokens.Range.Expand
import DesignTokens.Similarity
import DesignTokens.Tree.Strings
import DesignTokens.Tree.Leaves
import DesignTokens.Template.Basic
import DesignTokens.Template.Variables
import DesignTokens.Template.Resolve
import DesignTokens.Text.Unprintable
import DesignTokens.Text.Quoted
import DesignTokens.Directive.Basic
import DesignTokens.Directive.Decode
import DesignTokens.Directive.Encode
import DesignTokens.Document
import DesignTokens.Operation.Edits
import DesignTokens.Patch.Matrix
import DesignTokens.Patch.Apply
import DesignTokens.Glob.Pattern
import DesignTokens.Glob.Reader
import DesignTokens.Export.Filter
import DesignTokens.Token.Table
import DesignTokens.Token.Declaration
import DesignTokens.DocPath
import DesignTokens.Format.Basic
import DesignTokens.Source.Basic
import DesignTokens.Source.Loader
import DesignTokens.Build.Builder
import DesignTokens.Build.Entry
import DesignTokens.Text.Reading
import DesignTokens.Yaml.Char
import DesignTokens.Yaml.Gap
import DesignTokens.Yaml.Plain
import DesignTokens.Yaml.Quoted
import DesignTokens.Yaml.Block
import DesignTokens.Yaml.Token
import DesignTokens.Yaml.Label
import DesignTokens.Yaml.Layout
import DesignTokens.Yaml.Node
import DesignTokens.Yaml.Encoding
import DesignTokens.Yaml.Schema
import DesignTokens.Yaml.Reader
import DesignTokens.Toml.Char
import DesignTokens.Toml.Quoted
import DesignTokens.Toml.Moment
import DesignTokens.Toml.Number
import DesignTokens.Toml.Table
import DesignTokens.Toml.Reader
import DesignTokens.Files.Tree
import DesignTokens.Toml.Printer
import DesignTokens.Project.Config
import DesignTokens.Project.Build
import DesignTokens.Project.Scaffold
import DesignTokens.Cli.Arguments
import DesignTokens.Cli.Help
import DesignTokens.Cli.Run
import DesignTokens.Cli.Wanted
import DesignTokens.Main
import DesignTokens.Proofs.Source.Cache
import DesignTokens.Proofs.Build.Memo
import DesignTokens.Proofs.Edit.Position
import DesignTokens.Proofs.Edit.Place
import DesignTokens.Proofs.Edit.Frame
import DesignTokens.Proofs.Edit.Detach
import DesignTokens.Proofs.Edit.Shape
import DesignTokens.Proofs.Operation.Shape
import DesignTokens.Proofs.Directive.Values
import DesignTokens.Proofs.Source.Documents
import DesignTokens.Proofs.Format.Maps
import DesignTokens.Proofs.Template.Reading
import DesignTokens.Proofs.Template.TwoPass
import DesignTokens.Proofs.Build.Strictness
import DesignTokens.Proofs.Source.Unfolding
import DesignTokens.Proofs.Source.History
import DesignTokens.Proofs.Source.Rules
import DesignTokens.Proofs.Source.Cycles
import DesignTokens.Proofs.Source.Root
import DesignTokens.Proofs.Range.Names
import DesignTokens.Proofs.Range.Pair
import DesignTokens.Proofs.Range.Chain
import DesignTokens.Proofs.Range.Product
import DesignTokens.Proofs.Range.Accepted
import DesignTokens.Proofs.Range.Reversed
import DesignTokens.Proofs.Tree.Inside
import DesignTokens.Proofs.Tree.Distinct
import DesignTokens.Proofs.Tree.Tips
import DesignTokens.Proofs.Export.Filter
import DesignTokens.Proofs.Build.Shape
import DesignTokens.Proofs.Patch.Combinations
import DesignTokens.Proofs.Directive.RoundTrip
import DesignTokens.Proofs.Build.Needed
import DesignTokens.Proofs.Source.Reads
import DesignTokens.Proofs.Project.Isolation
import DesignTokens.Proofs.Edit.Checks
import DesignTokens.Proofs.Tree.Merge
import DesignTokens.Proofs.Tree.Overlay
import DesignTokens.Proofs.Edit.Exact
import DesignTokens.Proofs.Edit.Undo
import DesignTokens.Proofs.Edit.Commute
import DesignTokens.Proofs.Pointer.Codec
import DesignTokens.Proofs.Tree.Strings
import DesignTokens.Proofs.Operation.Strings
import DesignTokens.Proofs.Patch.WrittenOut
import DesignTokens.Proofs.Template.Kept
import DesignTokens.Proofs.Template.Escaped
import DesignTokens.Proofs.Operation.Segments
import DesignTokens.Proofs.Patch.Flags
import DesignTokens.Proofs.Source.Destination
import DesignTokens.Proofs.Template.Dotted
import DesignTokens.Proofs.Template.Names
import DesignTokens.Proofs.Build.Failure
import DesignTokens.Proofs.Token.Index
import DesignTokens.Proofs.Token.Members
import DesignTokens.Proofs.Project.Overwritten
import DesignTokens.Proofs.Range.Limit
import DesignTokens.Proofs.Similarity.Cosine
import DesignTokens.Proofs.Similarity.Ranking
import DesignTokens.Proofs.Edit.Canonical
import DesignTokens.Proofs.Range.Rounds
import DesignTokens.Proofs.Template.Normal
