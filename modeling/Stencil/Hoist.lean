import Stencil.Scope.Wrapper

set_option autoImplicit false

/-! # Hoisting style sheets

The style sheets of a compiled page are moved into one, at the end of the head or, without a
head, at the end of the page. The last one comes first.
-/

namespace Stencil

open Text Html

namespace Hoist

/-- Takes a style sheet out of the page and keeps its text, the latest first. -/
def collect (m : Match) : StateM (List Text) Text := do
  modify (m.inner :: ·)
  pure []

/-- The page with one style sheet, at the end of its head or of the page. -/
def insert (sheets : List Text) (page : Text) : Text :=
  let style := startTagText "style".text [] ++ join ['\n'] sheets ++ endTagText "style".text
  let head := endTagText "head".text
  if contains page head then replaceFirst head (style ++ head) page else page ++ style

/-- Moves all style sheets of a page into one, and takes the wrappers out. -/
def styles (markup : Text) : Except Overlong Text := do
  let cleared ← Wrapper.clear markup
  let (page, sheets) :=
    (replaceMatches collect .outer (.ofName "style".text) none cleared).run.run []
  let page ← page
  pure (if sheets.isEmpty then page else insert sheets page)

end Hoist
end Stencil
