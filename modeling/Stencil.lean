import Stencil.CommandLine
import Stencil.Compiler
import Stencil.Css.Parser
import Stencil.Css.Piece
import Stencil.Css.Split
import Stencil.Css.Stylesheet
import Stencil.Disk
import Stencil.Disk.Change
import Stencil.Fragment
import Stencil.Hoist
import Stencil.Html.Attributes
import Stencil.Html.CharRef
import Stencil.Html.CharRef.Names
import Stencil.Html.Edit
import Stencil.Html.Match
import Stencil.Html.Patch
import Stencil.Html.Position
import Stencil.Html.Printer
import Stencil.Html.RawText
import Stencil.Html.Region
import Stencil.Html.Selector
import Stencil.Html.Source
import Stencil.Html.StartTag
import Stencil.Html.Token
import Stencil.Html.Tree
import Stencil.Link
import Stencil.Main
import Stencil.Markdown
import Stencil.Markdown.Abbreviation
import Stencil.Markdown.AttrList
import Stencil.Markdown.Block.Basic
import Stencil.Markdown.Block.Code
import Stencil.Markdown.Block.Definition
import Stencil.Markdown.Block.Entry
import Stencil.Markdown.Block.Grid
import Stencil.Markdown.Block.Heading
import Stencil.Markdown.Block.Item
import Stencil.Markdown.Block.Quote
import Stencil.Markdown.Block.Read
import Stencil.Markdown.Fence
import Stencil.Markdown.Footnote
import Stencil.Markdown.Line
import Stencil.Markdown.Node
import Stencil.Markdown.RawBlock
import Stencil.Markdown.Source
import Stencil.Markdown.Span.Basic
import Stencil.Markdown.Span.Emphasis
import Stencil.Markdown.Span.Link
import Stencil.Markdown.Span.Plain
import Stencil.Markdown.Span.Read
import Stencil.Marker
import Stencil.Path.Basic
import Stencil.Path.Normal
import Stencil.Scope.Rules
import Stencil.Scope.Styles
import Stencil.Scope.Wrapper
import Stencil.Session
import Stencil.Site.Build
import Stencil.Site.Config
import Stencil.Site.Exclusion
import Stencil.Site.Walk
import Stencil.Slot
import Stencil.Table
import Stencil.Text.Basic
import Stencil.Text.Blank
import Stencil.Text.Case
import Stencil.Text.Integer
import Stencil.Text.Lines
import Stencil.Text.Quoted
import Stencil.Text.Range
import Stencil.Text.Utf8
import Stencil.Text.Word
import Stencil.Vocabulary
import Stencil.Proofs.Document.Basic
import Stencil.Proofs.Document.Tag
import Stencil.Proofs.Document.Tokens
import Stencil.Proofs.Document.Tree
import Stencil.Proofs.Document.Matches
import Stencil.Proofs.Document.Quiet
import Stencil.Proofs.Document.Splice
import Stencil.Proofs.Document.Retag
import Stencil.Proofs.Document.Top
import Stencil.Proofs.Document.Edit
import Stencil.Proofs.Document.Unique
import Stencil.Proofs.Template.Basic
import Stencil.Proofs.Template.WellFormed
import Stencil.Proofs.Template.Slots
import Stencil.Proofs.Template.Wrapper
import Stencil.Proofs.Template.Unwrap
import Stencil.Proofs.Template.Compile
import Stencil.Proofs.Template.Page
import Stencil.Proofs.Template.Anchor
import Stencil.Proofs.Template.Walk
import Stencil.Proofs.Document.Occurrence
import Stencil.Proofs.Document.Nested
import Stencil.Proofs.Document.Leaves
import Stencil.Proofs.Document.Strands
import Stencil.Proofs.Template.Resolve
import Stencil.Proofs.Document.Apart
import Stencil.Proofs.Css.Reading
import Stencil.Proofs.Css.Written
import Stencil.Proofs.Css.Split
import Stencil.Proofs.Css.Layout
import Stencil.Proofs.Css.RoundTrip
import Stencil.Proofs.Scope.Confine
import Stencil.Proofs.Scope.Stamp
import Stencil.Proofs.Document.Capture
import Stencil.Proofs.Document.Printed
import Stencil.Proofs.Document.Annotate
import Stencil.Proofs.Document.Segments
import Stencil.Proofs.Scope.Expand
import Stencil.Proofs.Scope.Compile
import Stencil.Proofs.Scope.Carry
import Stencil.Proofs.Scope.Confinement
import Stencil.Proofs.Text.Letters
import Stencil.Proofs.Source.Rest
import Stencil.Proofs.Source.Names
import Stencil.Proofs.Source.Attributes
import Stencil.Proofs.Source.SelfClosing
import Stencil.Proofs.Source.Expansion
import Stencil.Proofs.Source.Appending
import Stencil.Proofs.Source.Inclusion
import Stencil.Proofs.Source.Untouched
import Stencil.Proofs.Flow.Basic
import Stencil.Proofs.Flow.Reading
import Stencil.Proofs.Flow.Patch
import Stencil.Proofs.Flow.Stamp
import Stencil.Proofs.Flow.Confine
import Stencil.Proofs.Source.Sealed
import Stencil.Proofs.Flow.Sheets
import Stencil.Proofs.Flow.Hoist
import Stencil.Proofs.Flow.Gather
import Stencil.Proofs.Scope.Reach
import Stencil.Proofs.Scope.Account
import Stencil.Proofs.Scope.Settled
import Stencil.Proofs.Scope.Rejection
import Stencil.Proofs.Scope.Loose
import Stencil.Proofs.Scope.Strict
import Stencil.Proofs.Disk.Tree
import Stencil.Proofs.Disk.Action
import Stencil.Proofs.Disk.Frame
import Stencil.Proofs.Fragment.Lookup
import Stencil.Proofs.Path.Join
import Stencil.Proofs.Path.Normal
import Stencil.Proofs.Site.Walk
import Stencil.Proofs.Site.Wipe
import Stencil.Proofs.Site.Copy
import Stencil.Proofs.Site.Load
import Stencil.Proofs.Site.Pages
import Stencil.Proofs.Site.Build
import Stencil.Proofs.Site.Frame
import Stencil.Proofs.Site.Mirror
import Stencil.Proofs.Site.Pool
import Stencil.Proofs.Site.Independence
import Stencil.Proofs.Site.Listing
import Stencil.Proofs.Site.Spared
import Stencil.Proofs.Css.Concat
import Stencil.Proofs.Source.Positions
import Stencil.Proofs.Source.Scan
import Stencil.Proofs.Source.Extent
