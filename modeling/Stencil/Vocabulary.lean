import Stencil.Text.Basic

set_option autoImplicit false

/-! # The vocabulary of templates

The names of the tags and attributes that mean something in a template.
-/

namespace Stencil.Vocabulary

/-- The tag that is replaced by a fragment. -/
def importTag : Text := "sergey-import".text

/-- The tag that is replaced by content given to a fragment. -/
def slotTag : Text := "sergey-slot".text

/-- The tag that gives content to a named slot. -/
def templateTag : Text := "sergey-template".text

/-- The tag of a link that knows whether it leads to the current page. -/
def linkTag : Text := "sergey-link".text

/-- The attribute of the element that encloses an expanded fragment. -/
def wrapperAttr : Text := "data-sergey-autotag".text

/-- The attribute of a style sheet whose rules are confined to a fragment. -/
def scopingAttr : Text := "sergey-scoped".text

/-- The word in a selector that exempts it from confinement. -/
def exemptWord : Text := "sergey-ignore".text

/-- The attribute that carries a loose marker. -/
def looseAttr (marker : Text) : Text := "data-sergey-scope-".text ++ marker

/-- The attribute that carries a strict marker. -/
def strictAttr (marker : Text) : Text := "data-sergey-strict-".text ++ marker

/-- The name of the slot that takes all content without a name. -/
def defaultSlot : Text := "default".text

end Stencil.Vocabulary
