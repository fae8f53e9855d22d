import Stencil.Site.Config
import Stencil.Text.Lines
import Stencil.Text.Utf8

set_option autoImplicit false

/-! # Exclusions

Which files and folders are left out of a site: all whose name begins with an excluded name,
and the folders of the fragments and of the output.
-/

namespace Stencil.Site

open Text

/-- What is left out: names, and paths of folders relative to the root. -/
structure Exclusion where
  names : List Text
  folders : List Text
  deriving DecidableEq, Repr

namespace Exclusion

/-- The names that are always left out. -/
def defaultNames : List Text :=
  [".git", ".DS_Store", ".prettierrc", ".env", "node_modules", "package.json",
    "package-lock.json"].map String.text

/-- The items of a list without those that came before. -/
def distinct (items : List Text) : List Text :=
  items.foldl (fun kept item => if kept.elem item then kept else kept ++ [item]) []

/-- The names in the text of an ignore file, one a line; a line that begins with `#` is a
comment. -/
def ignoredNames (s : Text) : List Text :=
  ((lines s).map fun line => stripChar '/' (trim line)).filter fun name =>
    !name.isEmpty && !startsWith name ['#']

/-- The text of the bytes of a file: undecodable bytes are dropped and line ends unified. -/
def textOf (bytes : List UInt8) : Text := unifyBreaks (decode bytes)

/-- The names in the ignore file of a site, if it has one. -/
def readIgnored (root : Path) : Disk.Action (List Text) := do
  let path := root.below [".gitignore".text]
  if (← get).has path then pure (ignoredNames (textOf (← Disk.Action.readFile path)))
  else pure []

/-- The names that are left out. -/
def readNames (c : Config) : Disk.Action (List Text) := do
  pure (distinct (defaultNames ++ c.exclude ++ (← readIgnored c.root)))

/-- The folders that are left out, relative to the root. -/
def foldersOf (c : Config) : List Text :=
  let folders := [c.imports, c.content, c.output].map fun folder =>
    Path.normalize (Path.parse folder).text
  distinct (folders.filter (· ≠ [char '.']))

/-- Whether a file or folder is left out, given by its segments below the root. -/
def skips (e : Exclusion) (segments : List Text) : Bool :=
  e.names.any (startsWith (segments.getLast?.getD [])) || e.folders.elem (join ['/'] segments)

end Exclusion
end Stencil.Site
