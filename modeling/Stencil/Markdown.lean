import Stencil.Markdown.Abbreviation
import Stencil.Markdown.AttrList
import Stencil.Markdown.Fence
import Stencil.Markdown.Footnote
import Stencil.Markdown.RawBlock

set_option autoImplicit false

/-! # Markdown

The HTML of a document in Markdown. First fenced code and blocks of HTML are put aside; then the
blocks are read, and the spans in them; then line breaks are put in and attribute lists and
abbreviations are looked for.
-/

namespace Stencil.Markdown

open Text

/-- The nodes of a document. -/
def read (s : Text) : Reading (List Node) := do
  let lines ← RawBlock.putAside (← Fence.putAside (sourceLines s))
  let blocks ← readLines "div".text lines
  let footnotes ← Footnote.readAll (← get).footnotes
  let nodes ← Span.readNodes blocks
  let footnotes ← Footnote.readSpans footnotes
  pure (nodes ++ Footnote.list (← get).citations footnotes)

/-- The HTML of the nodes of a document. -/
def write (abbreviations : Table) (nodes : List Node) : Text :=
  let nodes := layOut (prettyAll nodes)
  printAll (Abbreviation.mark abbreviations (AttrList.giveAll nodes))

/-- The HTML of a document. -/
def render (s : Text) : Except Overlong Text := do
  if isBlankText s then pure []
  else
    let (nodes, desk) ← (read s).run .empty
    pure (trim (write desk.abbreviations nodes))

end Stencil.Markdown
