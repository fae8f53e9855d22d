import Stencil.Path.Basic
import Stencil.Text.Quoted

set_option autoImplicit false

/-! # Disks

The files and folders a site is built from and written to, as a value. Each is kept under its
place, the row of names that leads to it from the root. Reading and writing fail as they do on
a real disk: a path leads only through folders that exist.
-/

namespace Stencil

open Text

/-- What stands at a place. -/
inductive Entry where
  | file (bytes : List UInt8)
  | folder
  deriving DecidableEq, Repr

/-- Files and folders by place, and the place of the current folder. -/
structure Disk where
  here : List Text
  entries : List (List Text × Entry)
  deriving DecidableEq, Repr

namespace Disk

/-- The kinds of trouble with a path. -/
inductive Trouble where
  | missing
  | present
  | notFolder
  | isFolder
  deriving DecidableEq, Repr

/-- Trouble with a path. -/
structure Fault where
  trouble : Trouble
  path : Path
  deriving DecidableEq, Repr

/-- A fault in words. -/
def Fault.message (fault : Fault) : Text :=
  let cause : String :=
    match fault.trouble with
    | .missing => "[Errno 2] No such file or directory: "
    | .present => "[Errno 17] File exists: "
    | .notFolder => "[Errno 20] Not a directory: "
    | .isFolder => "[Errno 21] Is a directory: "
  cause.text ++ quoted fault.path.text

/-! ## Looking -/

/-- What stands at a place; the root is a folder. -/
def get? (d : Disk) (place : List Text) : Option Entry :=
  if place.isEmpty then some .folder else d.entries.lookup place

/-- The place one segment further, from a folder that exists. -/
def step (d : Disk) (place : List Text) (segment : Text) : Except Trouble (List Text) :=
  match d.get? place with
  | none => .error .missing
  | some (.file _) => .error .notFolder
  | some .folder => .ok (Path.follow place segment)

/-- The place a path leads to, through folders that exist; nothing need stand there. -/
def locate (d : Disk) (p : Path) : Except Trouble (List Text) :=
  p.segments.foldlM d.step (if p.slashes = 0 then d.here else [])

/-- What a path leads to. -/
def at? (d : Disk) (p : Path) : Option Entry :=
  match d.locate p with
  | .ok place => d.get? place
  | .error _ => none

/-- Whether a path leads to a folder. -/
def isFolder (d : Disk) (p : Path) : Bool := d.at? p == some .folder

/-- Whether a path leads to a file or folder. -/
def has (d : Disk) (p : Path) : Bool := (d.at? p).isSome

/-- The names in the folder at a place, in order, each with whether it is a folder. -/
def names (d : Disk) (place : List Text) : List (Text × Bool) :=
  let found := d.entries.filterMap fun (at_, entry) =>
    match at_.reverse with
    | name :: parent => if parent.reverse = place then some (name, entry == .folder) else none
    | [] => none
  found.mergeSort fun a b => !(b.1 < a.1)

/-- The segments that lead from a folder to a place below it. -/
def relative? (folder place : List Text) : Option (List Text) :=
  if folder.isPrefixOf place then some (place.drop folder.length) else none

/-- The files below the folder at a place, by the segments that lead there, in order. -/
def filesBelow (d : Disk) (place : List Text) : List (List Text × List UInt8) :=
  let found := d.entries.filterMap fun (at_, entry) =>
    match relative? place at_, entry with
    | some segments, .file bytes => some (segments, bytes)
    | _, _ => none
  found.mergeSort fun a b => !(b.1 < a.1)

/-- The greatest number of names that lead to a place. -/
def height (d : Disk) : Nat := d.entries.foldl (fun n (place, _) => max n place.length) 0

/-! ## Writing -/

/-- Work on a disk that may fail; what was done before stays. -/
abbrev Action (α : Type) := ExceptT Fault (StateM Disk) α

/-- Puts an entry at a place, instead of what stands there. -/
def put (d : Disk) (place : List Text) (entry : Entry) : Disk :=
  { d with entries := d.entries.filter (·.1 ≠ place) ++ [(place, entry)] }

/-- The disk without what is below a place. -/
def empty (d : Disk) (place : List Text) : Disk :=
  { d with entries := d.entries.filter fun (at_, _) => at_ = place || !place.isPrefixOf at_ }

/-- The disk without a place and all below it. -/
def erase (d : Disk) (place : List Text) : Disk :=
  { d with entries := d.entries.filter fun (at_, _) => !place.isPrefixOf at_ }

namespace Action

/-- Fails with trouble with a path. -/
def fail {α : Type} (trouble : Trouble) (p : Path) : Action α := throw ⟨trouble, p⟩

/-- The place a path leads to. -/
def locate (p : Path) : Action (List Text) := do
  match (← get).locate p with
  | .ok place => pure place
  | .error trouble => fail trouble p

/-- The bytes of a file. -/
def readFile (p : Path) : Action (List UInt8) := do
  match (← get).get? (← locate p) with
  | some (.file bytes) => pure bytes
  | some .folder => fail .isFolder p
  | none => fail .missing p

/-- Writes a file into a folder that exists. -/
def writeFile (p : Path) (bytes : List UInt8) : Action Unit := do
  let place ← locate p
  match (← get).get? place with
  | some .folder => fail .isFolder p
  | _ => modify (·.put place (.file bytes))

/-- Makes a folder in a folder that exists. -/
def makeFolder (p : Path) : Action Unit := do
  let place ← locate p
  if ((← get).get? place).isSome then fail .present p else modify (·.put place .folder)

/-- Makes a folder; one that exists already is welcome if `welcome` says so. -/
def makeFolderIfNew (welcome : Bool) (p : Path) : Action Unit :=
  tryCatch (makeFolder p) fun fault => do
    if fault.trouble = .missing || !welcome || !(← get).isFolder p then throw fault

/-- Makes a folder and the folders that lead to it. The number bounds the folders made. -/
def makeFoldersFrom (welcome : Bool) (slashes : Nat) : Nat → List Text → Action Unit
  | 0, segments => makeFolderIfNew welcome ⟨slashes, segments⟩
  | k + 1, segments =>
      tryCatch (makeFolder ⟨slashes, segments⟩) fun fault => do
        if fault.trouble = .missing then
          if segments.isEmpty then throw fault
          makeFoldersFrom true slashes k segments.dropLast
          makeFolderIfNew welcome ⟨slashes, segments⟩
        else if !welcome || !(← get).isFolder ⟨slashes, segments⟩ then throw fault

/-- Makes a folder and the folders that lead to it. -/
def makeFolders (welcome : Bool) (p : Path) : Action Unit :=
  makeFoldersFrom welcome p.slashes p.segments.length p.segments

/-- Removes a folder with everything in it. The folder is emptied first, so a path to it that leads
through a folder in it leads nowhere any more, and the empty folder stays. -/
def removeFolder (p : Path) : Action Unit := do
  let place ← locate p
  match (← get).get? place with
  | some .folder => do
      modify (·.empty place)
      let place ← locate p
      modify (·.erase place)
  | some (.file _) => fail .notFolder p
  | none => fail .missing p

end Action
end Disk
end Stencil
