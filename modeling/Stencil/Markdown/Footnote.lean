import Stencil.Markdown.Block.Read
import Stencil.Markdown.Span.Read

set_option autoImplicit false

/-! # Footnotes

The footnotes stand in a list at the end of the document, in the order in which they are
referred to, each with links back to the references.
-/

namespace Stencil.Markdown

open Text

namespace Footnote

/-- The nodes of the footnotes by name, in the order of their texts. -/
def readAll : Table → Reading (List (Text × List Node))
  | [] => pure []
  | (name, text) :: footnotes => do
      let nodes ← readLines "div".text (splitOn '\n' text)
      pure ((name, nodes) :: (← readAll footnotes))

/-- The nodes of footnotes with their spans read. -/
def readSpans : List (Text × List Node) → Reading (List (Text × List Node))
  | [] => pure []
  | (name, nodes) :: footnotes => do
      let nodes ← Span.readNodes nodes
      pure ((name, nodes) :: (← readSpans footnotes))

/-- The link back to a reference: the footnote, its number, and which of its references. -/
def backLink (name : Text) (number reference : Nat) : Node :=
  let again := if reference = 0 then [] else decimal (reference + 1)
  .element ['a']
    [("href".text, "#fnref".text ++ again ++ [char ':'] ++ name),
      ("class".text, "footnote-backref".text),
      ("title".text,
        "Jump back to footnote ".text ++ decimal number ++ " in the text".text)]
    [.verbatim "&#8617;".text]

/-- The nodes of a footnote with links back: at the end of its last paragraph, or in a paragraph
of their own. -/
def withLinks (links nodes : List Node) : List Node :=
  match lastElement? nodes with
  | some (front, .element tag attrs children, tail) =>
      if tag = [char 'p'] then
        front ++ .element tag attrs (children ++ .verbatim "&#160;".text :: links) ::
          textNodes tail
      else nodes ++ [.element ['p'] [] links]
  | _ => nodes

/-- The item of a footnote. -/
def item (citations : List Text) (number : Nat) (footnote : Text × List Node) : Node :=
  let (name, nodes) := footnote
  let links := (List.range (max 1 (citations.count name))).map (backLink name number)
  .element "li".text [("id".text, "fn:".text ++ name)] (withLinks links nodes)

/-- The footnotes in the order in which they are referred to; those without a reference come
last. -/
def ordered (citations : List Text) (footnotes : List (Text × List Node)) :
    List (Text × List Node) :=
  let cited := citations.eraseDups.filterMap fun name =>
    (footnotes.lookup name).map fun nodes => (name, nodes)
  cited ++ footnotes.filter fun (name, _) => !citations.elem name

/-- The list of footnotes. -/
def list (citations : List Text) (footnotes : List (Text × List Node)) : List Node :=
  if footnotes.isEmpty then []
  else
    let items := (ordered citations footnotes).mapIdx fun i => item citations (i + 1)
    [.element "div".text [("class".text, "footnote".text)]
      [.element "hr".text [] [], .element "ol".text [] items]]

end Footnote
end Stencil.Markdown
