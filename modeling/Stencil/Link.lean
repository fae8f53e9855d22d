import Stencil.Html.Patch
import Stencil.Text.Blank
import Stencil.Vocabulary

set_option autoImplicit false

/-! # Links

A link to the current page, or to a page above it, is marked as active. Targets are compared as
paths, without the file name of an index page and without a fragment identifier.
-/

namespace Stencil

open Text Html

namespace Link

/-- A path without the file name of an index page and without a fragment identifier. -/
def barePath (path : Text) : Text :=
  (replaceFirst "index.html".text [] path).takeWhile (· != '#')

/-- Whether a link leads to the page at a path. -/
def isCurrent (target path : Text) : Bool :=
  !path.isEmpty && barePath path == barePath target

/-- Whether a link leads to the page at a path or to one above it. -/
def isParent (target path : Text) : Bool :=
  !path.isEmpty && startsWith (barePath path) (barePath target)

/-- The target of a link, and its attributes without the one that gives the target. -/
def target (attrs : Attributes) : Text × Attributes :=
  match ["to".text, "href".text].find? attrs.has with
  | some name => ((attrs.get? name).getD [], attrs.erase name)
  | none => ([], attrs)

/-- The attributes of a link that is active on a page: a class, and a mark when it leads to the
page itself. -/
def activate (activeClass : Text) (current : Bool) (attrs : Attributes) : Attributes :=
  let old := (attrs.get? "class".text).getD []
  let attrs := Table.set "class".text (trim (activeClass ++ [char ' '] ++ trimLeft old)) attrs
  if current then Table.set "aria-current".text "page".text attrs else attrs

/-- The anchor that stands for a link on the page at a path. -/
def anchor (activeClass path : Text) (m : Match) : Text :=
  let (goal, attrs) := target m.tag.attrs
  let current := isCurrent goal path
  let attrs :=
    if current || isParent goal path then activate activeClass current attrs else attrs
  let close := if m.close.isEmpty then [] else endTagText ['a']
  startTagText ['a'] (("href".text, goal) :: attrs.erase "href".text) ++ m.inner ++ close

/-- Turns the links in markup into anchors, for the page at a path. -/
def activateAll (activeClass path markup : Text) : Except Overlong Text :=
  if contains markup ('<' :: Vocabulary.linkTag) then
    Id.run (replaceMatches (fun m => pure (anchor activeClass path m)) .outer
      (.ofName Vocabulary.linkTag) none markup).run
  else pure markup

end Link
end Stencil
