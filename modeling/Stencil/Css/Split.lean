import Stencil.Text.Blank
import Stencil.Css.Piece
import Stencil.Css.Stylesheet

set_option autoImplicit false

/-! # Splitting at the top level

A text is split at a separator outside strings, comments, parentheses and brackets. A closing
mark counts only when it belongs to the innermost open one.
-/

namespace Stencil.Css

open Text

/-- The mark that closes an opening one. -/
def closerOf? : CodePoint → Option CodePoint
  | '(' => some ')'
  | '[' => some ']'
  | _ => none

/-- Puts some text at the front of the first part. -/
def extendFirst (s : Text) : List Text → List Text
  | [] => [s]
  | part :: parts => (s ++ part) :: parts

/-- The parts of some pieces that begin at an index. `stack` holds the marks that close what is
open, the innermost first. -/
def partsFrom (sep : CodePoint) (stack : Text) (index : Nat) : List Piece → Except Fault (List Text)
  | [] => .ok [[]]
  | .openString _ :: _ => .error (.unclosedString index)
  | .openComment _ :: _ => .error (.unclosedComment index)
  | .char c :: rest =>
      match closerOf? c with
      | some closer => (partsFrom sep (closer :: stack) (index + 1) rest).map (extendFirst [c])
      | none =>
          if stack.head? = some c then
            (partsFrom sep (stack.drop 1) (index + 1) rest).map (extendFirst [c])
          else if c = sep && stack.isEmpty then
            (partsFrom sep stack (index + 1) rest).map ([] :: ·)
          else (partsFrom sep stack (index + 1) rest).map (extendFirst [c])
  | piece :: rest =>
      (partsFrom sep stack (index + piece.size) rest).map (extendFirst piece.source)

/-- The trimmed parts of a text between separators at the top level, empty ones left out. -/
def topLevelParts (sep : CodePoint) (s : Text) : Except Fault (List Text) :=
  (partsFrom sep [] 0 (pieces s)).map fun parts => (parts.map trim).filter (!·.isEmpty)

end Stencil.Css
