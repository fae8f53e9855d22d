import Stencil.Markdown.Block.Basic

set_option autoImplicit false

/-! # Indented code

A block that is indented by a tab is code. Blocks of code that follow each other are one, with
the empty lines between them.
-/

namespace Stencil.Markdown

open Text

namespace Code

/-- A block of code with its text as it is printed. -/
def node (html : Text) : Node :=
  .element "pre".text [] [.element "code".text [] [.verbatim html]]

/-- The block of code that ends some nodes: the nodes before it, its text and its tail. -/
def last? (nodes : List Node) : Option (List Node × Text × Text) :=
  match lastElement? nodes with
  | some (front, .element outer _ [.element inner _ [.verbatim html]], tail) =>
      if outer = "pre".text && inner = "code".text then some (front, html, tail) else none
  | _ => none

/-- The nodes with more code in the block of code that ends them. -/
def extend (more : Text) (nodes : List Node) : List Node :=
  match last? nodes with
  | some (front, html, tail) => front ++ node (html ++ more) :: textNodes tail
  | none => nodes

/-- An empty line separates blocks, and counts in a block of code. -/
def gap : Rule := fun _ spot block blocks =>
  match block with
  | [] | [[]] => some (pure (extend ['\n', '\n'] spot.nodes, blocks))
  | [] :: rest =>
      some (pure (extend ['\n'] spot.nodes, if rest = [[]] then blocks else rest :: blocks))
  | _ => none

/-- Indented lines are code. -/
def rule : Rule := fun _ spot block blocks =>
  match block with
  | line :: _ =>
      if isIndented line then
        let (front, rest) := outdentFront block
        let html := escapeCode (trimRight front.text) ++ [char '\n']
        let nodes :=
          match last? spot.nodes with
          | some _ => extend ('\n' :: html) spot.nodes
          | none => spot.nodes ++ [node html]
        some (pure (nodes, withBlock rest blocks))
      else none
  | [] => none

end Code
end Stencil.Markdown
