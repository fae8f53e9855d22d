import Stencil.Markdown.Block.Basic

set_option autoImplicit false

/-! # Tables

A table is a block whose first line is a row of cells and whose second line is a row of as many
dashes. Pipes stand between cells; a pipe behind a backslash or in code does not count.
-/

namespace Stencil.Markdown

open Text

namespace Grid

/-! ## Cells -/

/-- A pipe, a row of backticks that may open or close code of some lengths, or other text. -/
inductive Part where
  | pipe
  | ticks (opens closes : Nat) (written : Text)
  | text (s : Text)
  deriving DecidableEq, Repr

/-- The part at the front of a text. -/
def part (c : CodePoint) (s : Text) : Part :=
  let row (t : Text) := t.takeWhile (· == char '`')
  match c, s with
  | '\\', '\\' :: _ => .text ['\\', '\\']
  | '\\', '`' :: r =>
      let ticks := row (char '`' :: r)
      .ticks (ticks.length - 1) ticks.length ('\\' :: ticks)
  | '\\', '|' :: _ => .text ['\\', '|']
  | '`', r =>
      let ticks := row (char '`' :: r)
      .ticks ticks.length ticks.length ticks
  | '|', _ => .pipe
  | c, _ => .text [c]

/-- The text of a part. -/
def Part.written : Part → Text
  | .pipe => ['|']
  | .ticks _ _ s => s
  | .text s => s

/-- The parts of a row; the number counts the characters of the last part that are still to be
passed over. -/
def partsFrom : Nat → Text → List Part
  | _, [] => []
  | k + 1, _ :: s => partsFrom k s
  | 0, c :: s => part c s :: partsFrom ((part c s).written.length - 1) s

/-- The number of parts up to a row of backticks that closes code of a length. -/
def closing? (n : Nat) : List Part → Option Nat
  | [] => none
  | .ticks _ closes _ :: parts => if closes = n then some 1 else (closing? n parts).map (· + 1)
  | _ :: parts => (closing? n parts).map (· + 1)

/-- The cells of a row in parts. The number counts the parts of the current code that are left;
the current cell is given in reverse. -/
def cellsFrom (cell : Text) : Nat → List Part → List Text
  | _, [] => [cell.reverse]
  | k + 1, part :: parts => cellsFrom (part.written.reverse ++ cell) k parts
  | 0, part :: parts =>
      match part with
      | .pipe => cell.reverse :: cellsFrom [] 0 parts
      | .ticks opens _ s =>
          let code := if opens = 0 then none else closing? opens parts
          cellsFrom (s.reverse ++ cell) (code.getD 0) parts
      | .text s => cellsFrom (s.reverse ++ cell) 0 parts

/-- The row without a pipe at its end, and the backslashes in front of it, if there is one that
counts. -/
def dropEndPipe? (row : Text) : Option Text :=
  match row.reverse with
  | '|' :: front =>
      let slashes := (front.takeWhile (· == char '\\')).length
      if slashes % 2 = 0 then some (front.drop slashes).reverse else none
  | _ => none

/-- Whether a row has a pipe at its front or its end. -/
def hasBorder (row : Text) : Bool := row.head? == some (char '|') || (dropEndPipe? row).isSome

/-- The cells of a row, in a table with or without a border. -/
def cells (border : Bool) (row : Text) : List Text :=
  let inner :=
    if border then
      let row := (after? ['|'] row).getD row
      (dropEndPipe? row).getD row
    else row
  cellsFrom [] 0 (partsFrom 0 inner)

/-! ## Tables -/

/-- The line without the spaces at both ends. -/
def stripSpaces (s : Text) : Text := stripChar ' ' s

/-- What the second row of a table says of a column. -/
def align (cell : Text) : Text :=
  let s := stripSpaces cell
  let left := s.head? == some (char ':')
  let right := s.getLast? == some (char ':')
  if left && right then "center".text
  else if left then "left".text
  else if right then "right".text
  else []

/-- Whether the first two lines of a block, and those below for a single column, are those of
a table: whether it has a border, and the alignment of its columns. -/
def shape? (block : Block) : Option (Bool × List Text) :=
  match block.map stripSpaces with
  | header :: ruler :: rows =>
      let border := hasBorder header
      let count := (cells border header).length
      let isRow := 1 < count || (border && (ruler :: rows).all hasBorder)
      let columns := cells border ruler
      let isRuler := columns.length = count && columns.flatten.all [char '|', ':', '-', ' '].elem
      if isRow && isRuler then some (border, columns.map align) else none
  | _ => none

/-- A row of cells with a tag. -/
def row (tag : Text) (columns : List Text) (cells : List Text) : Node :=
  let cell (i : Nat) (align : Text) : Node :=
    let attrs :=
      if align.isEmpty then []
      else [("style".text, "text-align: ".text ++ align ++ [char ';'])]
    .element tag attrs (textNodes (stripSpaces (cells[i]?.getD [])))
  .element "tr".text [] (columns.mapIdx cell)

/-- A table. -/
def rule : Rule := fun _ spot block blocks =>
  (shape? block).map fun (border, columns) =>
    let cellsOf (line : Text) : List Text := cells border (stripSpaces line)
    let header := row "th".text columns (cellsOf (block.headD []))
    let body := match block.drop 2 with
      | [] => [row "td".text columns []]
      | lines => lines.map fun line => row "td".text columns (cellsOf line)
    let table := Node.element "table".text []
      [.element "thead".text [] [header], .element "tbody".text [] body]
    pure (spot.nodes ++ [table], blocks)

end Grid
end Stencil.Markdown
