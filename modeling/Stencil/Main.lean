import Stencil.CommandLine
import Stencil.Disk.Change
import Stencil.Markdown
import Stencil.Marker

set_option autoImplicit false

/-! # The program

Loads the folders that a build reads and writes, runs the command line on them as a value, and
carries out on the real disk what has changed.
-/

namespace Stencil.Program

open Text

/-! ## Loading -/

/-- The text of a place as an absolute path. -/
def pathOf (place : List Text) : String := Text.string ('/' :: join ['/'] place)

/-- The place of the current folder. -/
def currentPlace : IO (List Text) := do
  pure (Path.parse (← IO.currentDir).toString.text).segments

/-- What stands at a place on the real disk, with all below it. -/
partial def load (place : List Text) : IO (List (List Text × Entry)) := do
  let path := (← IO.currentDir) / pathOf place
  if ← path.isDir then
    let names := (← path.readDir).toList.map fun entry => entry.fileName.text
    let below ← names.mapM fun name => load (place ++ [name])
    pure ((place, .folder) :: below.flatten)
  else if ← path.pathExists then
    pure [(place, .file (← IO.FS.readBinFile path).toList)]
  else pure []

/-- Whether a place is in one of some folders, or one of them. -/
def isIn (folders : List (List Text)) (place : List Text) : Bool :=
  folders.any fun folder => folder.isPrefixOf place

/-- The folders among some that do not lie in another one. -/
def outermost (folders : List (List Text)) : List (List Text) :=
  (folders.mergeSort fun a b => a.length ≤ b.length).foldl
    (fun kept folder => if isIn kept folder then kept else kept ++ [folder]) []

/-- The folders that lead to a place. -/
def leading (place : List Text) : List (List Text) :=
  (List.range place.length).map place.take

/-- The disk as far as a build with a configuration needs it. -/
def loadDisk (config : Site.Config) : IO Disk := do
  let here ← currentPlace
  let folders := outermost <|
    [config.root, config.importsFolder, config.contentFolder].map (·.resolve here)
  let loaded ← folders.mapM load
  let leads := (((here :: folders).flatMap leading) ++ [here]).eraseDups.filter fun place =>
    !place.isEmpty && !isIn folders place
  pure ⟨here, leads.map (·, .folder) ++ loaded.flatten⟩

/-! ## Carrying out -/

/-- Carries out a change on the real disk. -/
def carryOut : Disk.Change → IO Unit
  | .removeFile place => IO.FS.removeFile (pathOf place)
  | .removeFolder place => IO.FS.removeDir (pathOf place)
  | .makeFolder place => IO.FS.createDir (pathOf place)
  | .writeFile place bytes => IO.FS.writeBinFile (pathOf place) ⟨bytes.toArray⟩

/-- Prints a text on a line of its own. -/
def print (s : Text) : IO Unit := IO.println s.string

/-- Prints a message to the error stream and gives the number the program ends with. -/
def complain (message : Text) : IO UInt32 := do
  IO.eprintln message.string
  pure 1

/-- The variables of the environment that hold settings. -/
def readEnvironment : IO CommandLine.Environment := do
  let values ← CommandLine.variableNames.mapM fun name => do
    pure (name, (← IO.getEnv name.string).map String.text)
  pure fun name => (values.lookup name).bind id

/-- Runs the program with some arguments, and gives the number it ends with. -/
def run (arguments : List Text) : IO UInt32 := do
  let started ← IO.monoMsNow
  let env ← readEnvironment
  let disk ←
    match CommandLine.readConfig env arguments with
    | .ok config => loadDisk config
    | .error _ => pure ⟨← currentPlace, []⟩
  let seed ← IO.rand 0 (Marker.count - 1)
  let (ending, progress) :=
    CommandLine.run Markdown.render (Marker.forPage seed) env arguments disk
  for change in Disk.changes disk progress.disk do carryOut change
  let elapsed := decimal ((← IO.monoMsNow) - started)
  for event in progress.events do print (event.text elapsed)
  match ending with
  | .code n =>
      if let .error (.exit exit) := CommandLine.readConfig env arguments then print exit.text
      pure n.toUInt32
  | .refused message => complain message
  | .badInteger bad => complain bad.message
  | .fault fault => complain fault.message

end Stencil.Program

/-- Builds the site that the environment and the arguments describe. -/
def main (arguments : List String) : IO UInt32 :=
  Stencil.Program.run (arguments.map String.text)
