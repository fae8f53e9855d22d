import Stencil.Markdown.Node
import Stencil.Text.Integer
import Stencil.Text.Lines

set_option autoImplicit false

/-! # Sources and marks

Before a document is read, its line ends are unified and its tabs become spaces. Pieces that are
read early are put aside (`Desk.store`), and a mark stands for each in the text; a mark is a
number between two control characters that no source holds.
-/

namespace Stencil.Markdown

open Text

/-! ## The source -/

/-- The width of a tab, which is also the indentation of nested blocks. -/
def tabWidth : Nat := 4

/-- The text with tabs filled up with spaces, from a column on. -/
def expandTabs (column : Nat) : Text → Text
  | [] => []
  | '\t' :: s =>
      let width := tabWidth - column % tabWidth
      List.replicate width (char ' ') ++ expandTabs (column + width) s
  | '\n' :: s => char '\n' :: expandTabs 0 s
  | c :: s => c :: expandTabs (column + 1) s

/-- The character that begins a mark. -/
def markOpen : CodePoint := '\x02'

/-- The character that ends a mark. -/
def markClose : CodePoint := '\x03'

/-- The lines of a source: without the characters of marks, with spaces for tabs, and with
nothing in blank lines after the first line. -/
def sourceLines (s : Text) : List Text :=
  let clean := unifyBreaks (s.filter fun c => c != markOpen && c != markClose)
  match splitOn '\n' (expandTabs 0 (clean ++ [char '\n', char '\n'])) with
  | [] => []
  | first :: rest => first :: rest.map fun line => if line.all (· == ' ') then [] else line

/-! ## The desk -/

/-- What is known of a document while it is read. -/
structure Desk where
  /-- The pieces put aside, by number. -/
  stored : List Node
  /-- The targets and titles of references, by lower-case name. -/
  references : List (Text × Text × Option Text)
  /-- The titles of abbreviations. -/
  abbreviations : Table
  /-- The texts of footnotes. -/
  footnotes : Table
  /-- The footnotes referred to, in order, as often as they are. -/
  citations : List Text

/-- Nothing known yet. -/
def Desk.empty : Desk := ⟨[], [], [], [], []⟩

/-- Reading that puts pieces aside, and fails at a number with too many digits. -/
abbrev Reading := StateT Desk (Except Overlong)

/-- The mark of the piece with a number. -/
def mark (n : Nat) : Text := [markOpen] ++ decimal n ++ [markClose]

/-- Puts a piece aside and gives its mark. -/
def store (node : Node) : Reading Text := do
  let desk ← get
  set { desk with stored := desk.stored ++ [node] }
  pure (mark desk.stored.length)

/-- The piece whose mark stands at the front of a text, with the length of the mark. -/
def Desk.marked? (desk : Desk) (s : Text) : Option (Node × Nat) :=
  match s with
  | [] => none
  | c :: r =>
      if c = markOpen then do
        let (digits, _) ← cut? [markClose] r
        let n ← natural? digits
        some (← desk.stored[n]?, digits.length + 2)
      else none

/-- Puts a node in front of others; texts that meet are joined. -/
def prepend (node : Node) (nodes : List Node) : List Node :=
  match node, nodes with
  | .text s, .text t :: rest => .text (s ++ t) :: rest
  | .text [], nodes => nodes
  | node, nodes => node :: nodes

/-- The nodes of a text with marks; the number counts the characters of the last mark that are
still to be passed over. -/
def Desk.resolveFrom (desk : Desk) : Nat → Text → List Node
  | _, [] => []
  | k + 1, _ :: s => desk.resolveFrom k s
  | 0, c :: s =>
      match desk.marked? (c :: s) with
      | some (node, length) => prepend node (desk.resolveFrom (length - 1) s)
      | none => prepend (.text [c]) (desk.resolveFrom 0 s)

/-- The nodes of a text with marks. -/
def Desk.resolve (desk : Desk) (s : Text) : List Node := desk.resolveFrom 0 s

/-- The words of a text with marks. -/
def Desk.wordsOf (desk : Desk) (s : Text) : Text := Markdown.wordsOf (desk.resolve s)

end Stencil.Markdown
