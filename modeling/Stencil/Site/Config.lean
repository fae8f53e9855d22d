import Stencil.Disk
import Stencil.Text.Blank
import Stencil.Text.Integer

set_option autoImplicit false

/-! # The configuration of a site

Where a site lies, where its fragments and its output are, and how it is compiled. The output
folder is wiped by every build, so it must lie inside the root, and not be the root itself.
-/

namespace Stencil.Site

open Text

/-- The settings of a build. The folders are given as they are written, relative to the root
unless they are absolute. -/
structure Config where
  root : Path
  imports : Text
  content : Text
  output : Text
  activeClass : Text
  exclude : List Text
  maxDepth : Int
  workers : Int
  verbose : Bool
  deriving DecidableEq, Repr

namespace Config

/-- How deep imports may be nested when nothing else is said. -/
def usualDepth : Int := 50

/-- The settings that hold when nothing else is said. -/
def default : Config where
  root := Path.parse ['.']
  imports := "_imports".text
  content := "_imports".text
  output := "public".text
  activeClass := "active".text
  exclude := []
  maxDepth := usualDepth
  workers := 1
  verbose := false

/-- The folder of the fragments. -/
def importsFolder (c : Config) : Path := (Path.parse c.imports).under c.root

/-- The folder of the fragments in Markdown. -/
def contentFolder (c : Config) : Path := (Path.parse c.content).under c.root

/-- The folder the site is written to. -/
def outputFolder (c : Config) : Path := (Path.parse c.output).under c.root

/-- Why a build cannot start. -/
inductive Refusal where
  | outputNotInside (output : Path)
  | tooFewWorkers (workers : Int)
  | noImports (imports : Path)
  deriving DecidableEq, Repr

/-- A refusal in words. -/
def Refusal.message : Refusal → Text
  | .outputNotInside output => "Output folder must be inside the root: ".text ++ output.text
  | .tooFewWorkers workers =>
      "workers must be at least 1, got ".text ++ signed workers
  | .noImports imports => "No ".text ++ imports.text ++ " folder found".text

/-- Whether a place lies below another one. -/
def isInside (folder place : List Text) : Bool := folder.isPrefixOf place && place != folder

/-- Why the settings cannot be used from the current folder, if so. -/
def refusal? (c : Config) (here : List Text) : Option Refusal :=
  if !isInside (c.root.resolve here) (c.outputFolder.resolve here) then
    some (.outputNotInside c.outputFolder)
  else if c.workers < 1 then some (.tooFewWorkers c.workers)
  else none

end Config
end Stencil.Site
