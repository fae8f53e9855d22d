import Stencil.Text.Blank

set_option autoImplicit false

/-! # Raw text

The content of scripts and style sheets is not markup: it runs to the end tag of the element,
in whatever case that tag is written.
-/

namespace Stencil.Html.RawText

open Text

/-- The elements with raw text for content. -/
def names : List Text := ["script".text, "style".text]

/-- Whether a character is a lower-case ASCII letter in some case. The long s, and the i with
a dot and the dotless i, are cases of `s` and `i`. -/
def isCaseOf (letter c : CodePoint) : Bool :=
  c.toLower == letter || (letter == 's' && c == 'ſ') || (letter == 'i' && (c == 'İ' || c == 'ı'))

/-- What follows a lower-case name in any case at the front of a text. -/
def afterName? : Text → Text → Option Text
  | [], s => some s
  | _ :: _, [] => none
  | p :: ps, c :: s => if isCaseOf p c then afterName? ps s else none

/-- What follows `>` at the front of a text, after any blanks. -/
def afterClose? (s : Text) : Option Text := after? ['>'] (trimLeft s)

/-- What follows the end tag of a name at the front of a text. -/
def afterEndTag? (name s : Text) : Option Text := do
  afterClose? (← afterName? name (← after? ['<', '/'] s))

/-- What follows an end tag that may have blanks before its name. -/
def afterSpacedEndTag? (name s : Text) : Option Text := do
  afterClose? (← afterName? name (trimLeft (← after? ['<', '/'] s)))

end Stencil.Html.RawText
