import Stencil.Text.Case
import Stencil.Text.Word
import Stencil.Html.RawText

set_option autoImplicit false

/-! # Regions

The part of a source that belongs to an element: its start tag, its content and its end tag.
The end tag is found by counting the tags of the same name that stand between, so the region
is known without a tree, and the source keeps every character.
-/

namespace Stencil.Html

open Text

/-- The elements whose region is the start tag alone. -/
def voidNames : List Text :=
  ["area", "base", "br", "col", "embed", "hr", "img", "input", "link", "meta", "param",
    "source", "track", "wbr"].map String.text

/-- The text up to the first `>` outside quotes, and the text after it. `quote` is the quote
that is open at the front. -/
def cutTagEnd? (quote : Option CodePoint) : Text → Option (Text × Text)
  | [] => none
  | c :: s =>
      match quote with
      | some q =>
          (cutTagEnd? (if c = q then none else some q) s).map
            fun (front, rest) => (c :: front, rest)
      | none =>
          if c = '>' then some ([], s)
          else
            (cutTagEnd? (if c = '"' || c = '\'' then some c else none) s).map
              fun (front, rest) => (c :: front, rest)

/-! ## Start tags in a source -/

/-- Whether a character may stand in the run that follows `<` in a start tag. -/
def isRunChar (c : CodePoint) : Bool := !(isBlank c || c == '/' || c == '>')

/-- The start tag at the front of what follows a `<`, when its first `k` characters, or fewer,
are taken as the name; the longest name that leads to an end counts. -/
def startTextFrom? (s : Text) : Nat → Option (Text × Text)
  | 0 => none
  | k + 1 =>
      match cutTagEnd? none (s.drop (k + 1)) with
      | some (attrs, rest) => some ([char '<'] ++ s.take (k + 1) ++ attrs ++ [char '>'], rest)
      | none => startTextFrom? s k

/-- The start tag at the front of a text, and the text after it. -/
def startText? : Text → Option (Text × Text)
  | '<' :: s => startTextFrom? s (s.takeWhile isRunChar).length
  | _ => none

/-! ## Tags inside an element -/

/-- A tag in a text: where it begins and ends, its name, whether it is an end tag, and whether
it is written with a closing slash. -/
structure Mark where
  first : Nat
  stop : Nat
  name : Text
  closing : Bool
  selfClosing : Bool
  deriving DecidableEq, Repr

/-- Whether a character may stand in the name of a tag, the first place excepted. -/
def isMarkNameChar (c : CodePoint) : Bool := isWord c || [char ':', '.', '-'].elem c

/-- The tag at the front of a text, which begins at an index. -/
def readMark? (index : Nat) : Text → Option Mark
  | '<' :: s =>
      let closing := s.head? == some (char '/')
      let r := if closing then s.drop 1 else s
      let name := r.takeWhile isMarkNameChar
      if (r.head?.map CodePoint.isAlpha).getD false then
        (cutTagEnd? none (r.drop name.length)).map fun (attrs, rest) =>
          ⟨index, index + (s.length + 1 - rest.length), name, closing,
            endsWith (trimRight attrs) ['/']⟩
      else none
  | _ => none

/-- The length of the comment at the front of a text. -/
def commentLength? (s : Text) : Option Nat := do
  let (content, _) ← cut? "-->".text (← after? "<!--".text s)
  some (content.length + 7)

/-- The tags of a text outside comments. The text begins at an index, and the first number
counts the characters of the last tag or comment that are still to be passed over. -/
def marksFrom : Nat → Nat → Text → List Mark
  | _, _, [] => []
  | k + 1, index, _ :: s => marksFrom k (index + 1) s
  | 0, index, c :: s =>
      match commentLength? (c :: s) with
      | some length => marksFrom (length - 1) (index + 1) s
      | none =>
          match readMark? index (c :: s) with
          | some mark => mark :: marksFrom (mark.stop - index - 1) (index + 1) s
          | none => marksFrom 0 (index + 1) s

/-- The tags of a text outside comments. -/
def marks (s : Text) : List Mark := marksFrom 0 0 s

/-- The end tag of an element of a name, among the tags after its start tag. `depth` counts the
elements of the same name that are open inside it. -/
def endMark? (name : Text) (depth : Nat) : List Mark → Option Mark
  | [] => none
  | mark :: rest =>
      if lower mark.name ≠ name then endMark? name depth rest
      else if mark.closing then
        match depth with
        | 0 => some mark
        | depth + 1 => endMark? name depth rest
      else if mark.selfClosing then endMark? name depth rest
      else endMark? name (depth + 1) rest

/-! ## Regions -/

/-- The source of an element in three parts. -/
structure Region where
  start : Text
  inner : Text
  close : Text
  deriving DecidableEq, Repr

/-- The region of an element of a name whose start tag is at the front of a text. An element
that is never closed has its start tag only, but a script or a style sheet then runs to the
end. -/
def region? (name s : Text) : Option Region :=
  (startText? s).map fun (start, rest) =>
    if voidNames.elem name || endsWith start ['/', '>'] then ⟨start, [], []⟩
    else if RawText.names.elem name then
      match cutAt? (RawText.afterEndTag? name) rest with
      | some (inner, close, _) => ⟨start, inner, close⟩
      | none => ⟨start, rest, []⟩
    else
      match endMark? name 0 (marks rest) with
      | some mark =>
          ⟨start, rest.take mark.first, (rest.drop mark.first).take (mark.stop - mark.first)⟩
      | none => ⟨start, [], []⟩

end Stencil.Html
