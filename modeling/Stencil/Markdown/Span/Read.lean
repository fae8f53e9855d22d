import Stencil.Markdown.Span.Emphasis
import Stencil.Markdown.Span.Link
import Stencil.Markdown.Span.Plain

set_option autoImplicit false

/-! # Reading the spans of a document

The patterns in the order in which they are applied, to each text of the document.
-/

namespace Stencil.Markdown

open Text

namespace Span

/-- The patterns for spans, in order. -/
def patterns : List Pattern :=
  [code, escape, Link.footnote, Link.named Link.links, Link.inline Link.links,
    Link.inline Link.images, Link.named Link.images, Link.short Link.links,
    Link.short Link.images, Link.address, Link.mail, lineBreak, tag, reference, loneSigns,
    Emphasis.stars, Emphasis.underscores]

/-- Some nodes with the spans of their texts read. -/
def readNodes (nodes : List Node) : Reading (List Node) :=
  let read := Pattern.readText patterns
  mapTextsOf read read read nodes

end Span
end Stencil.Markdown
