import Stencil.Text.Basic

set_option autoImplicit false

/-! # Paths as texts

Joining two paths, and the normal form of a path: no empty segments, no `.`, and no `..` after
a segment it can cancel.
-/

namespace Stencil.Path

open Text

/-- The number of slashes that mark a path as absolute: two are kept, three or more are one. -/
def rootSlashes (s : Text) : Nat :=
  match (s.takeWhile (· == char '/')).length with
  | 2 => 2
  | n => min n 1

/-- Takes a segment of a path into account; the segments so far are given in reverse. -/
def pushSegment (absolute : Bool) (done : List Text) (segment : Text) : List Text :=
  if segment = [] || segment = [char '.'] then done
  else if segment = [char '.', char '.'] then
    match done with
    | [] => if absolute then [] else [segment]
    | last :: rest => if last = [char '.', char '.'] then segment :: done else rest
  else segment :: done

/-- The segments of the normal form of a path. -/
def normalSegments (s : Text) : List Text :=
  ((splitOn '/' s).foldl (pushSegment (rootSlashes s != 0)) []).reverse

/-- The normal form of a path; that of an empty path is `.`. -/
def normalize (s : Text) : Text :=
  let path := List.replicate (rootSlashes s) (char '/') ++ join [char '/'] (normalSegments s)
  if path.isEmpty then ['.'] else path

/-- A path seen from a base; an absolute path stays as it is. -/
def joinTexts (base path : Text) : Text :=
  if startsWith path ['/'] then path
  else if base.isEmpty || endsWith base ['/'] then base ++ path
  else base ++ [char '/'] ++ path

end Stencil.Path
