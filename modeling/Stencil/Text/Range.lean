import Stencil.Text.CodePoint

set_option autoImplicit false

/-! # Ranges of code points

Character classes beyond ASCII are given as lists of closed ranges of code points.
-/

namespace Stencil.Text

/-- Whether the code point of a character lies in one of the closed ranges. -/
def inRanges (ranges : List (Nat × Nat)) (c : CodePoint) : Bool :=
  ranges.any fun (low, high) => low ≤ c.toNat && c.toNat ≤ high

end Stencil.Text
