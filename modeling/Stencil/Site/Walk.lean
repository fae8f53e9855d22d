import Stencil.Site.Exclusion

set_option autoImplicit false

/-! # Walking a site

The files of a site are visited folder by folder, the names of each folder in order. A folder
is read when it is entered, so that a visit sees what earlier visits wrote.
-/

namespace Stencil.Site

open Text

section

variable {m : Type → Type} [Monad m] (list : List Text → m (List (Text × Bool)))
  (e : Exclusion) (file : List Text → m Unit)

/-- Visits every file below a folder that is not left out. Files and folders are given by their
segments below the root, and the number bounds how deep folders are entered. -/
def visit : Nat → List Text → m Unit
  | 0, _ => pure ()
  | depth + 1, folder => do
      (← list folder).forM fun (name, isFolder) =>
        let segments := folder ++ [name]
        if e.skips segments then pure ()
        else if isFolder then visit depth segments
        else file segments

end

/-- The files of the site at a place, by their segments below it, in the order of the walk. -/
def files (d : Disk) (root : List Text) (e : Exclusion) : List (List Text) :=
  let walk : StateM (List (List Text)) Unit :=
    visit (fun folder => pure (d.names (root ++ folder))) e (fun file => modify (file :: ·))
      (d.height + 1) []
  (walk.run []).2.reverse

end Stencil.Site
