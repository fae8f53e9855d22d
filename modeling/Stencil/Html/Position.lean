import Stencil.Text.Basic

set_option autoImplicit false

/-! # Positions in a source

A position is a line and a column, as they are counted while a source is read: only a line
feed ends a line. `lineStarts` says where each line begins, so that a position leads back to
an index (`Position.offset?`).
-/

namespace Stencil.Html

/-- A line, counted from one, and a column, counted from zero. -/
structure Position where
  line : Nat
  column : Nat
  deriving DecidableEq, Repr

namespace Position

/-- The position at which every source begins. -/
def origin : Position := ⟨1, 0⟩

/-- The position after one more character. -/
def step (p : Position) (c : CodePoint) : Position :=
  if c = '\n' then ⟨p.line + 1, 0⟩ else ⟨p.line, p.column + 1⟩

/-- The position after some more text. -/
def advance (p : Position) (s : Text) : Position := s.foldl step p

theorem advance_append (p : Position) (s t : Text) :
    p.advance (s ++ t) = (p.advance s).advance t := by
  simp [advance]

end Position

/-- The indices after the line feeds of a text that begins at index `k`. -/
def lineStartsFrom (k : Nat) : Text → List Nat
  | [] => []
  | c :: s => if c = '\n' then (k + 1) :: lineStartsFrom (k + 1) s else lineStartsFrom (k + 1) s

/-- The index at which each line of a source begins. -/
def lineStarts (s : Text) : List Nat := 0 :: lineStartsFrom 0 s

/-- The index a position stands for, among lines that begin at the given indices. -/
def Position.offset? (p : Position) (starts : List Nat) : Option Nat :=
  starts[p.line - 1]?.map (· + p.column)

end Stencil.Html
