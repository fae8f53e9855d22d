import Stencil.Table

set_option autoImplicit false

/-! # Attributes

The attributes of an element in the order of their first appearance, each name once.
-/

namespace Stencil.Html

/-- Names with their values, in order. -/
abbrev Attributes := Table

end Stencil.Html
