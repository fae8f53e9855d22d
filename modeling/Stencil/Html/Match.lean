import Stencil.Html.Printer
import Stencil.Html.Region
import Stencil.Html.Selector

set_option autoImplicit false

/-! # Matches

The elements of a source that a selector takes, each with the text it occupies.
-/

namespace Stencil.Html

open Text

/-- An element with the text of its start tag, its content and its end tag. -/
structure Match where
  tag : Tag
  start : Text
  inner : Text
  close : Text
  deriving DecidableEq, Repr

namespace Match

/-- The text of the whole element. -/
def outer (m : Match) : Text := m.start ++ m.inner ++ m.close

/-- The value of an attribute of the element. -/
def attr? (m : Match) (name : Text) : Option Text := m.tag.attrs.get? name

/-- An element with the text it is printed as, for when its start tag cannot be read off the
source. -/
def ofPrinted (e : Element) : Match where
  tag := e.tag
  start := startTagText e.tag.name e.tag.attrs
  inner := printNodes e.tag.name e.children
  close := if voidNames.elem e.tag.name then [] else endTagText e.tag.name

/-- An element with the text it occupies in a source whose lines begin at the given indices. -/
def ofElement (source : Text) (starts : List Nat) (e : Element) : Match :=
  match (e.tag.position.offset? starts).bind fun offset =>
      region? e.tag.name (source.drop offset) with
  | some region => ⟨e.tag, region.start, region.inner, region.close⟩
  | none => ofPrinted e

end Match

/-- The first items of a list up to a limit; a negative limit counts from the end. -/
def takeUpTo {α : Type} (limit : Option Int) (items : List α) : List α :=
  match limit with
  | none => items
  | some (.ofNat n) => items.take n
  | some (.negSucc n) => items.take (items.length - (n + 1))

/-- The elements of a source that a selector takes, up to a limit. A source that is rejected
has none; a number with too many digits is a failure. -/
def matchesIn (source : Text) (sel : Selector) (limit : Option Int) :
    Except Overlong (List Match) :=
  if !source.elem (char '<') then .ok []
  else
    match Node.ofSource source with
    | .error (.rejected _) => .ok []
    | .error (.overlong n) => .error n
    | .ok nodes =>
        let found := (elementsOf nodes).filter (sel.selects ·.tag)
        .ok ((takeUpTo limit found).map (Match.ofElement source (lineStarts source)))

end Stencil.Html
