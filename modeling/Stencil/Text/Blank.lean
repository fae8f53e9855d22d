import Stencil.Text.Basic

set_option autoImplicit false

/-! # Blank characters

The characters that count as white space, and the trimming of texts. The set holds the
line breaks and separators of Unicode; a zero-width space or a byte order mark is not in it.
-/

namespace Stencil.Text

/-- White space: controls used as separators, spaces, line and paragraph separators. -/
def isBlank (c : CodePoint) : Bool :=
  let n := c.toNat
  (0x09 ≤ n && n ≤ 0x0D) || (0x1C ≤ n && n ≤ 0x20) || n == 0x85 || n == 0xA0 || n == 0x1680 ||
    (0x2000 ≤ n && n ≤ 0x200A) || n == 0x2028 || n == 0x2029 || n == 0x202F || n == 0x205F ||
    n == 0x3000

/-- The text without the blanks at its front. -/
def trimLeft (s : Text) : Text := s.dropWhile isBlank

/-- The text without the blanks at its end. -/
def trimRight (s : Text) : Text := dropEndWhile isBlank s

/-- The text without the blanks at both ends. -/
def trim (s : Text) : Text := trimRight (trimLeft s)

/-- Whether a text holds nothing but blanks. -/
def isBlankText (s : Text) : Bool := s.all isBlank

/-- The text without the characters `c` at both ends. -/
def stripChar (c : CodePoint) (s : Text) : Text := dropEndWhile (· == c) (s.dropWhile (· == c))

end Stencil.Text
