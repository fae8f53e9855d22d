import Stencil.Disk

set_option autoImplicit false

/-! # Changes

The steps that turn one disk into another, in an order in which each can be done: what is in
the way is removed from the inside, and folders are made from the outside before their files
are written.
-/

namespace Stencil

/-- Whether two entries are of the same kind. -/
def Entry.sameKind : Entry → Entry → Bool
  | .file _, .file _ => true
  | .folder, .folder => true
  | _, _ => false

namespace Disk

/-- A step from one disk to another, at a place. -/
inductive Change where
  | removeFile (place : List Text)
  | removeFolder (place : List Text)
  | makeFolder (place : List Text)
  | writeFile (place : List Text) (bytes : List UInt8)
  deriving DecidableEq, Repr

/-- The removal of an entry. -/
def Change.removal (place : List Text) : Entry → Change
  | .file _ => .removeFile place
  | .folder => .removeFolder place

/-- The making of an entry. -/
def Change.making (place : List Text) : Entry → Change
  | .file bytes => .writeFile place bytes
  | .folder => .makeFolder place

/-- The entries of a disk from the outside to the inside. -/
def byDepth (d : Disk) : List (List Text × Entry) :=
  d.entries.mergeSort fun a b => a.1.length ≤ b.1.length

/-- The steps from one disk to another. -/
def changes (before after : Disk) : List Change :=
  let removed := before.byDepth.reverse.filter fun (place, entry) =>
    !((after.get? place).map entry.sameKind).getD false
  let made := after.byDepth.filter fun (place, entry) => before.get? place != some entry
  removed.map (fun (place, entry) => .removal place entry) ++
    made.map fun (place, entry) => .making place entry

end Disk
end Stencil
