import Stencil.Text.Word
import Stencil.Html.Tree

set_option autoImplicit false

/-! # Selectors

Which elements of a source are meant: those of a name, those with an attribute, and combinations
such as `p:not([title])`. Names are compared without regard to the case of ASCII letters.
-/

namespace Stencil.Html

open Text

/-- A selector: the name an element must have, if any, the attributes it must have, and the
names and attributes it must not have. -/
structure Selector where
  name : Option Text
  attrs : List Text
  withoutNames : List Text
  withoutAttrs : List Text
  deriving DecidableEq, Repr

/-- Whether two names are equal up to the case of ASCII letters. -/
def sameName (a b : Text) : Bool := a.map CodePoint.toLower == b.map CodePoint.toLower

namespace Selector

/-- The elements of a name. -/
def ofName (name : Text) : Selector := ⟨some name, [], [], []⟩

/-- The elements with an attribute. -/
def ofAttr (attr : Text) : Selector := ⟨none, [attr], [], []⟩

/-- Whether an element has an attribute. -/
def hasAttr (tag : Tag) (attr : Text) : Bool := tag.attrs.any fun (name, _) => sameName attr name

/-- Whether a selector takes an element. -/
def selects (sel : Selector) (tag : Tag) : Bool :=
  sel.name.all (sameName · tag.name) && sel.attrs.all (hasAttr tag) &&
    !sel.withoutNames.any (sameName · tag.name) && !sel.withoutAttrs.any (hasAttr tag)

/-- The name of a selector that asks for nothing but a name made of a letter and then word
characters and dashes. -/
def bareName? (sel : Selector) : Option Text :=
  match sel with
  | ⟨some (c :: name), [], [], []⟩ =>
      if c.isAlpha && name.all fun c => isWord c || c == '-' then some (c :: name) else none
  | _ => none

/-! ## Reading a selector -/

/-- Whether a character may stand in a name. -/
def isNameChar (c : CodePoint) : Bool := isWord c || c == '-'

/-- The parts after the name: attributes in brackets, and names and attributes in `:not`. The
number bounds the parts. -/
def readParts? (sel : Selector) : Nat → Text → Option Selector
  | _, [] => some sel
  | 0, _ => none
  | k + 1, s =>
      match after? "[".text s, after? ":not([".text s, after? ":not(".text s with
      | some r, _, _ =>
          (cut? "]".text r).bind fun (attr, rest) =>
            readParts? { sel with attrs := sel.attrs ++ [attr] } k rest
      | _, some r, _ =>
          (cut? "])".text r).bind fun (attr, rest) =>
            readParts? { sel with withoutAttrs := sel.withoutAttrs ++ [attr] } k rest
      | _, _, some r =>
          (cut? ")".text r).bind fun (name, rest) =>
            readParts? { sel with withoutNames := sel.withoutNames ++ [name] } k rest
      | none, none, none => none

/-- The selector a text stands for: a name or `*`, followed by conditions. -/
def parse? (s : Text) : Option Selector :=
  match s with
  | '*' :: r => readParts? ⟨none, [], [], []⟩ r.length r
  | _ =>
      let name := s.takeWhile isNameChar
      let rest := s.dropWhile isNameChar
      readParts? ⟨if name.isEmpty then none else some name, [], [], []⟩ rest.length rest

end Selector
end Stencil.Html
