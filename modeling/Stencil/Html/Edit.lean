import Stencil.Html.Printer
import Stencil.Html.Region

set_option autoImplicit false

/-! # Editing tags

Two edits on the text of tags: appending attributes to a start tag, and writing out the end tag
of a custom element that closes itself. A custom element has a dash in its name.
-/

namespace Stencil.Html

open Text

/-- Appends attributes without a value to the text of a start tag, and leaves the rest of it
as it is. -/
def appendAttributes (start : Text) (names : List Text) : Text :=
  if names.isEmpty then start
  else
    let added := names.flatMap fun name => attrText (name, [])
    if endsWith start ['/', '>'] then
      trimRight (start.take (start.length - 2)) ++ added ++ [char ' ', char '/', char '>']
    else trimRight (start.take (start.length - 1)) ++ added ++ [char '>']

/-- The text up to the first `/>` outside quotes, and the text after it; there must be no `>`
outside quotes before it. `quote` is the quote that is open at the front. -/
def cutSelfClosing? (quote : Option CodePoint) : Text → Option (Text × Text)
  | [] => none
  | c :: s =>
      match quote with
      | some q =>
          (cutSelfClosing? (if c = q then none else some q) s).map
            fun (front, rest) => (c :: front, rest)
      | none =>
          if c = '>' then none
          else if c = '/' && s.head? == some (char '>') then some ([], s.drop 1)
          else
            (cutSelfClosing? (if c = '"' || c = '\'' then some c else none) s).map
              fun (front, rest) => (c :: front, rest)

/-- The custom element that closes itself at the front of a text: its name, its attributes as
written, and the text after it. -/
def readSelfClosing? : Text → Option (Text × Text × Text)
  | '<' :: s =>
      let name := s.takeWhile isMarkNameChar
      if (s.head?.map CodePoint.isAlpha).getD false && name.elem (char '-') then
        (cutSelfClosing? none (s.drop name.length)).map fun (attrs, rest) => (name, attrs, rest)
      else none
  | _ => none

/-- Writes out end tags from the front of a text; the number counts the characters of the last
element that are still to be passed over. -/
def expandFrom : Nat → Text → Text
  | _, [] => []
  | k + 1, _ :: s => expandFrom k s
  | 0, c :: s =>
      match readSelfClosing? (c :: s) with
      | some (name, attrs, rest) =>
          [char '<'] ++ name ++ trimRight attrs ++ [char '>'] ++ endTagText name ++
            expandFrom (s.length - rest.length) s
      | none => c :: expandFrom 0 s

/-- The text with `<a-b …></a-b>` for each custom element `<a-b … />`. -/
def expandSelfClosing (s : Text) : Text := expandFrom 0 s

end Stencil.Html
