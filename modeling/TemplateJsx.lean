import TemplateJsx.CommandLine.Arguments
import TemplateJsx.CommandLine.Outcome
import TemplateJsx.Diagnostic
import TemplateJsx.Draft.Basic
import TemplateJsx.Draft.Splice
import TemplateJsx.Files.Path
import TemplateJsx.Files.Run
import TemplateJsx.Files.Storage
import TemplateJsx.Files.Template
import TemplateJsx.Files.Tree
import TemplateJsx.Json
import TemplateJsx.LineDiff
import TemplateJsx.Lowering.Block
import TemplateJsx.Lowering.Delimiter
import TemplateJsx.Lowering.Fault
import TemplateJsx.Lowering.Transform
import TemplateJsx.Main
import TemplateJsx.Markup.Fold
import TemplateJsx.Markup.Grammar
import TemplateJsx.Markup.Outline
import TemplateJsx.Markup.Parse
import TemplateJsx.Markup.Piece
import TemplateJsx.Markup.Rule
import TemplateJsx.Markup.Tree
import TemplateJsx.Markup.Walk
import TemplateJsx.Number.Binary
import TemplateJsx.Number.Shortest
import TemplateJsx.Options
import TemplateJsx.Options.Reading
import TemplateJsx.Order
import TemplateJsx.Peg.Matcher
import TemplateJsx.Peg.Pattern
import TemplateJsx.Proofs.Draft.Ascent
import TemplateJsx.Proofs.Draft.Consistency
import TemplateJsx.Proofs.Draft.Exactness
import TemplateJsx.Proofs.Draft.Items
import TemplateJsx.Proofs.Draft.Patching
import TemplateJsx.Proofs.Draft.Rearrangement
import TemplateJsx.Proofs.Draft.Recording
import TemplateJsx.Proofs.Draft.Scan
import TemplateJsx.Proofs.Files.Batch
import TemplateJsx.Proofs.Files.Listing
import TemplateJsx.Proofs.Files.Outputs
import TemplateJsx.Proofs.Files.Paths
import TemplateJsx.Proofs.Files.Places
import TemplateJsx.Proofs.Lowering.AnyOrder
import TemplateJsx.Proofs.Lowering.Balance
import TemplateJsx.Proofs.Lowering.Delimiters
import TemplateJsx.Proofs.Lowering.Faults
import TemplateJsx.Proofs.Lowering.Frames
import TemplateJsx.Proofs.Lowering.Patches
import TemplateJsx.Proofs.Lowering.Scripts
import TemplateJsx.Proofs.Lowering.Tokens
import TemplateJsx.Proofs.Lowering.Transform
import TemplateJsx.Proofs.Lowering.Translation
import TemplateJsx.Proofs.Lowering.WordSearch
import TemplateJsx.Proofs.Lowering.Wrapping
import TemplateJsx.Proofs.Markup.Alternatives
import TemplateJsx.Proofs.Markup.Assembly
import TemplateJsx.Proofs.Markup.Layout
import TemplateJsx.Proofs.Markup.Names
import TemplateJsx.Proofs.Markup.Nesting
import TemplateJsx.Proofs.Markup.Origins
import TemplateJsx.Proofs.Markup.Refusal
import TemplateJsx.Proofs.Markup.RoundTrip
import TemplateJsx.Proofs.Markup.Shapes
import TemplateJsx.Proofs.Markup.Sketch
import TemplateJsx.Proofs.Markup.SourceOrder
import TemplateJsx.Proofs.Markup.TagParts
import TemplateJsx.Proofs.Markup.Tags
import TemplateJsx.Proofs.Markup.Taking
import TemplateJsx.Proofs.Markup.Tiling
import TemplateJsx.Proofs.Markup.Visits
import TemplateJsx.Proofs.Markup.Words
import TemplateJsx.Proofs.Order
import TemplateJsx.Proofs.Peg.Attempts
import TemplateJsx.Proofs.Peg.Depth
import TemplateJsx.Proofs.Peg.Derivation
import TemplateJsx.Proofs.Peg.Inside
import TemplateJsx.Proofs.Peg.Reading
import TemplateJsx.Proofs.Peg.Recognition
import TemplateJsx.Proofs.Peg.Rows
import TemplateJsx.Proofs.Peg.Stack
import TemplateJsx.Proofs.SourceMap.Decoding
import TemplateJsx.Proofs.Text.Balance
import TemplateJsx.Proofs.Text.Blank
import TemplateJsx.Proofs.Text.LineIndex
import TemplateJsx.Proofs.Text.Positions
import TemplateJsx.Proofs.Text.Stands
import TemplateJsx.SourceMap.Basic
import TemplateJsx.SourceMap.Mapping
import TemplateJsx.SourceMap.Vlq
import TemplateJsx.Text.Alphanumeric
import TemplateJsx.Text.Basic
import TemplateJsx.Text.Blank
import TemplateJsx.Text.Hidden
import TemplateJsx.Text.LineIndex
import TemplateJsx.Text.Lines
import TemplateJsx.Text.Position
import TemplateJsx.Text.Quoted
import TemplateJsx.Text.Ranges
import TemplateJsx.Text.Span
import TemplateJsx.Yaml.Document
import TemplateJsx.Yaml.Event
import TemplateJsx.Yaml.Place
import TemplateJsx.Yaml.Scalar
import TemplateJsx.Yaml.Token
import TemplateJsx.Yaml.Value
