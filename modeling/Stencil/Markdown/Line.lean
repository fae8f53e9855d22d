import Stencil.Markdown.Source

set_option autoImplicit false

/-! # Lines and indentation

A block of a document is a list of lines. What is nested in an item stands a tab further in;
an item itself may be indented by less than a tab.
-/

namespace Stencil.Markdown

open Text

/-- The lines of a block. -/
abbrev Block := List Text

/-- The text of a block. -/
def Block.text (block : Block) : Text := join ['\n'] block

/-- The block of a text. -/
def Block.ofText (s : Text) : Block := splitOn '\n' s

/-- Whether a block holds nothing but blanks. -/
def Block.isBlank (block : Block) : Bool := block.all isBlankText

/-- The number of spaces at the front of a line. -/
def indentOf (line : Text) : Nat := (line.takeWhile (· == char ' ')).length

/-- A line without its indentation, when that is less than a tab. -/
def afterIndent? (line : Text) : Option Text :=
  if indentOf line < tabWidth then some (line.drop (indentOf line)) else none

/-- Whether a line is indented by a tab. -/
def isIndented (line : Text) : Bool := tabWidth ≤ indentOf line

/-- The lines one tab less indented, as far as they are indented or blank, and the other lines. -/
def outdentFront : Block → Block × Block
  | [] => ([], [])
  | line :: lines =>
      if isIndented line then
        let (front, rest) := outdentFront lines
        (line.drop tabWidth :: front, rest)
      else if isBlankText line then
        let (front, rest) := outdentFront lines
        ([] :: front, rest)
      else ([], line :: lines)

/-- The lines some tabs less indented, where they are indented that far. -/
def outdent (tabs : Nat) (lines : Block) : Block :=
  let width := tabs * tabWidth
  lines.map fun line => if width ≤ indentOf line then line.drop width else line

/-- The first line that a reader reads: the lines before it, what was read, and the lines
after it. -/
def firstLine? {α : Type} (reader : Text → Option α) : Block → Option (Block × α × Block)
  | [] => none
  | line :: lines =>
      match reader line with
      | some found => some ([], found, lines)
      | none =>
          (firstLine? reader lines).map fun (front, found, rest) => (line :: front, found, rest)

/-- Splits lines at empty lines. An empty line that would begin a block, or that ends the
document, belongs to a block; the current block is given in reverse. -/
def blocksFrom (block : Block) : List Text → List Block
  | [] => []
  | [line] => [(line :: block).reverse]
  | line :: lines =>
      if line.isEmpty && !block.isEmpty then block.reverse :: blocksFrom [] lines
      else blocksFrom (line :: block) lines

/-- The blocks of a document. -/
def blocksOf (lines : List Text) : List Block := blocksFrom [] lines

/-- A block without the empty lines at its front. -/
def Block.trimFront (block : Block) : Block := block.dropWhile (·.isEmpty)

/-- A block without the empty lines at its end. -/
def Block.trimBack (block : Block) : Block := (block.reverse.dropWhile (·.isEmpty)).reverse

end Stencil.Markdown
