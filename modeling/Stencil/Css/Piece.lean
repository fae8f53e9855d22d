import Stencil.Text.Basic

set_option autoImplicit false

/-! # Pieces of a style sheet

A style sheet as a sequence of single characters, quoted strings and comments. Strings and
comments are opaque: whatever they hold has no meaning outside. A string or a comment that is
never closed takes all the rest and is the last piece.
-/

namespace Stencil.Css

open Text

/-- A character on its own, a string with its quotes, a comment with its marks, or what is left
when one of these is never closed. -/
inductive Piece where
  | char (c : CodePoint)
  | quoted (s : Text)
  | comment (s : Text)
  | openString (s : Text)
  | openComment (s : Text)
  deriving DecidableEq, Repr

namespace Piece

/-- The source of a piece. -/
def source : Piece → Text
  | .char c => [c]
  | .quoted s => s
  | .comment s => s
  | .openString s => s
  | .openComment s => s

/-- The number of characters of a piece. -/
def size (p : Piece) : Nat := p.source.length

end Piece

/-- The rest of a string up to the quote that closes it; a backslash takes the character after
it along. -/
def cutString? (quote : CodePoint) : Text → Option Text
  | [] => none
  | '\\' :: c :: s => (cutString? quote s).map fun front => .char '\\' :: c :: front
  | c :: s =>
      if c = '\\' then none
      else if c = quote then some [c]
      else (cutString? quote s).map fun front => c :: front

/-- The piece at the front of a text that begins with a character. -/
def firstPiece (c : CodePoint) (s : Text) : Piece :=
  if c = '"' || c = '\'' then
    match cutString? c s with
    | some front => .quoted (c :: front)
    | none => .openString (c :: s)
  else if c = '/' && s.head? == some (.char '*') then
    match cut? ['*', '/'] (s.drop 1) with
    | some (front, _) => .comment ([char '/', char '*'] ++ front ++ [char '*', char '/'])
    | none => .openComment (c :: s)
  else .char c

/-- The pieces of a text; the number counts the characters of the last piece that are still to
be passed over. -/
def piecesFrom : Nat → Text → List Piece
  | _, [] => []
  | k + 1, _ :: s => piecesFrom k s
  | 0, c :: s =>
      let piece := firstPiece c s
      piece :: piecesFrom (piece.size - 1) s

/-- The pieces of a style sheet. -/
def pieces (s : Text) : List Piece := piecesFrom 0 s

/-- The source of some pieces. -/
def sourceOf (ps : List Piece) : Text := ps.flatMap Piece.source

end Stencil.Css
