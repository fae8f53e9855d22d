import Stencil.Markdown.Block.Basic

set_option autoImplicit false

/-! # Quotations

From a line that begins with `>` on, the lines of a block are quoted, those without the sign
too.
-/

namespace Stencil.Markdown

open Text

namespace Quote

/-- A line without the sign of a quotation. -/
def unquote? (line : Text) : Option Text := do
  let r ← after? ['>'] (← afterIndent? line)
  some ((after? [' '] r).getD r)

/-- A line of a quotation, with or without the sign. -/
def clean (line : Text) : Text :=
  if trim line = [char '>'] then [] else (unquote? line).getD line

/-- The tag of quotations. -/
def tag : Text := "blockquote".text

/-- A quotation, from some line of a block on. -/
def rule : Rule := fun read spot block blocks =>
  (firstLine? (fun line => (unquote? line).map fun _ => clean line) block).map
    fun (front, line, rest) => do
      let nodes ← read spot.mode spot.tag spot.nodes [if front.isEmpty then [[]] else front]
      let lines := line :: rest.map clean
      let quoted := blocksOf (if front.isEmpty then lines else [] :: lines)
      pure (← intoLast [tag] tag nodes fun tag nodes => read .quote tag nodes quoted, blocks)

end Quote
end Stencil.Markdown
