import Stencil.Css.Stylesheet
import Stencil.Html.Token

set_option autoImplicit false

/-! # Sessions

Compiling draws markers from a supply, writes a log and may fail. A failure ends the work on a
page, but the markers drawn and the lines logged before it stay.
-/

namespace Stencil

open Text

/-- What the compiler has used up and written. -/
structure Session where
  /-- The number of markers drawn. -/
  drawn : Nat
  /-- The lines written, in order. -/
  log : List Text
  deriving DecidableEq, Repr

/-- The session before any work. -/
def Session.start : Session := ⟨0, []⟩

/-- Why a page cannot be compiled. -/
inductive Failure where
  /-- Imports are nested deeper than the limit. -/
  | tooDeep (limit : Int)
  /-- The markup of a fragment is rejected. -/
  | rejected (rejection : Html.Rejection)
  /-- A number in the markup has too many digits. -/
  | overlong (n : Overlong)
  deriving DecidableEq, Repr

/-- A failure in words. -/
def Failure.message : Failure → Text
  | .tooDeep limit =>
      "Imports nested deeper than ".text ++ signed limit ++
        " levels (import cycle?)".text
  | .rejected rejection => rejection.message
  | .overlong n => n.message

/-- Why a page cannot be compiled in which a source cannot be read. -/
def Failure.ofReadError : Html.ReadError → Failure
  | .rejected rejection => .rejected rejection
  | .overlong n => .overlong n

/-- Work that may draw markers, write to the log and fail. -/
abbrev Work (α : Type) := ExceptT Failure (StateM Session) α

/-- Reading is work that may fail. -/
instance : MonadLift (Except Overlong) Work where
  monadLift
    | .ok a => pure a
    | .error n => throw (.overlong n)

/-- A supply of markers: the marker that is drawn as the `n`-th, counted from one. -/
abbrev Markers := Nat → Text

namespace Work

/-- Draws the next marker. -/
def draw (markers : Markers) : Work Text := do
  let session ← get
  set { session with drawn := session.drawn + 1 }
  pure (markers (session.drawn + 1))

/-- Work in which reading may fail, as work that may fail. -/
def orFail {m : Type → Type} [Monad m] [MonadExceptOf Failure m] {α : Type}
    (x : ExceptT Overlong m α) : m α := do
  match ← x.run with
  | .ok a => pure a
  | .error n => throw (.overlong n)

/-- Writes a line to the log. -/
def write (line : Text) : Work Unit := modify fun session =>
  { session with log := session.log ++ [line] }

end Work
end Stencil
