import Stencil.Path.Normal

set_option autoImplicit false

/-! # Paths

A path is a row of segments, seen from the root or from the current folder. Empty segments and
`.` mean nothing and are left out; `..` is kept, since what it means depends on the folders
that exist.
-/

namespace Stencil

open Text

/-- A path: how many slashes mark it as absolute, none for a relative path, and its segments. -/
structure Path where
  slashes : Nat
  segments : List Text
  deriving DecidableEq, Repr

namespace Path

/-- The path a text stands for. -/
def parse (s : Text) : Path :=
  ⟨rootSlashes s, (splitOn '/' s).filter fun segment => !segment.isEmpty && segment != [char '.']⟩

/-- The text of a path; that of no segments is `.`. -/
def text (p : Path) : Text :=
  let s := List.replicate p.slashes (char '/') ++ join [char '/'] p.segments
  if s.isEmpty then ['.'] else s

/-- A path seen from a folder; an absolute path stays as it is. -/
def under (p folder : Path) : Path :=
  if p.slashes = 0 then ⟨folder.slashes, folder.segments ++ p.segments⟩ else p

/-- The path of a file or folder below a folder, given by its segments. -/
def below (folder : Path) (segments : List Text) : Path :=
  { folder with segments := folder.segments ++ segments }

/-- Takes a segment of an absolute path into account. -/
def follow (place : List Text) (segment : Text) : List Text :=
  if segment = [char '.', char '.'] then place.dropLast else place ++ [segment]

/-- The place a path leads to from the current folder, by its segments alone. -/
def resolve (here : List Text) (p : Path) : List Text :=
  p.segments.foldl follow (if p.slashes = 0 then here else [])

end Path
end Stencil
