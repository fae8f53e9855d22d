import Stencil.Text.Basic

set_option autoImplicit false

/-! # Lines

Two readings of line ends: `unifyBreaks` turns the carriage returns of a file into line
feeds, and `lines` splits a text at every character that ends a line.
-/

namespace Stencil.Text

/-- The text with each `\r\n` and each lone `\r` written as `\n`. -/
def unifyBreaks : Text → Text
  | [] => []
  | '\r' :: '\n' :: s => char '\n' :: unifyBreaks s
  | '\r' :: s => char '\n' :: unifyBreaks s
  | c :: s => c :: unifyBreaks s

/-- The characters that end a line: line feed, vertical tab, form feed, carriage return, the
file, group and record separators, next line, and the line and paragraph separators. -/
def isBreak (c : CodePoint) : Bool :=
  let n := c.toNat
  (0x0A ≤ n && n ≤ 0x0D) || (0x1C ≤ n && n ≤ 0x1E) || n == 0x85 || n == 0x2028 || n == 0x2029

/-- Collects the lines of a text; `line` holds the current line in reverse. -/
def linesFrom (line : Text) : Text → List Text
  | [] => if line.isEmpty then [] else [line.reverse]
  | '\r' :: '\n' :: s => line.reverse :: linesFrom [] s
  | c :: s => if isBreak c then line.reverse :: linesFrom [] s else linesFrom (c :: line) s

/-- The lines of a text without their ends; a last line without an end counts when it is not
empty. -/
def lines (s : Text) : List Text := linesFrom [] s

end Stencil.Text
