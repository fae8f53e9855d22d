import Stencil.Session
import Stencil.Text.Quoted

set_option autoImplicit false

/-! # Markers

A marker is ten hexadecimal digits. A supply is given by a number to start from; numbers that
follow each other give markers that look unlike.
-/

namespace Stencil.Marker

open Text

/-- The number of markers: as many as there are numbers of ten hexadecimal digits. -/
def count : Nat := 0x10000000000

/-- An odd number, so that multiplying by it permutes the markers. -/
def stride : Nat := 0x9E3779B97F

/-- The marker of a number; two numbers less than `count` apart have different markers. -/
def ofNumber (n : Nat) : Text := hex 10 (n * stride % count)

/-- The supply of markers that begins after a number. -/
def supply (start : Nat) : Markers := fun n => ofNumber (start + n)

/-- A number for a text, from a seed. The factor is odd, so that every character counts in the
remainder by `count`. -/
def numberOf (seed : Nat) (s : Text) : Nat := s.foldl (fun n c => n * 0x5BD1E995 + c.toNat) seed

/-- The supply of markers for a page, from a seed: pages with different paths begin at numbers
that lie far apart. -/
def forPage (seed : Nat) (page : List Text) : Markers :=
  supply (numberOf (seed + page.length) (join ['/'] page))

end Stencil.Marker
