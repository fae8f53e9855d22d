import Stencil.Compiler
import Stencil.Site.Walk

set_option autoImplicit false

/-! # Building a site

A build checks the settings, loads the fragments, wipes the output folder, copies the files that
are no pages and compiles the pages. Nothing is wiped before the settings and the fragments are
found to be in order, and a page that cannot be compiled does not stop the others.

Each page is compiled on its own, with a supply of markers of its own, so the order in which the
pages are done does not matter; `schedule` gives that order.
-/

namespace Stencil.Site

open Text

/-! ## Events -/

/-- What a build reports while it runs. -/
inductive Event where
  | loaded (count : Nat)
  | copied (path : Text)
  | saved (path : Text)
  | warned (line : Text)
  | failed (page message : Text)
  | compiled (count : Nat)
  | withFailures (count : Nat)
  deriving DecidableEq, Repr

/-- The text of an event, `elapsed` being the milliseconds the build took. -/
def Event.text (elapsed : Text) : Event → Text
  | .loaded count => "[LOG] Loaded ".text ++ decimal count ++ " fragments".text
  | .copied path => "[LOG] Copied ".text ++ path
  | .saved path => "[LOG] Saved ".text ++ path
  | .warned line => line
  | .failed page message => "[ERROR] ".text ++ page ++ ": ".text ++ message
  | .compiled count =>
      "[LOG] Compiled ".text ++ decimal count ++ " pages in ".text ++ elapsed ++
        "ms".text
  | .withFailures count => "[ERROR] ".text ++ decimal count ++ " pages failed".text

/-! ## The state of a build -/

/-- The disk, and the events reported so far in order. -/
structure Progress where
  disk : Disk
  events : List Event

/-- Why a build stops. -/
inductive Stop where
  | refused (refusal : Config.Refusal)
  | fault (fault : Disk.Fault)
  deriving DecidableEq, Repr

/-- A part of a build. -/
abbrev Task (α : Type) := ExceptT Stop (StateM Progress) α

/-- What a build has done: the pages it compiled in order, the files it copied, and why each
other page could not be compiled. -/
structure Report where
  pages : List Text
  copied : List Text
  failures : Table
  deriving DecidableEq, Repr

namespace Progress

/-- Reports an event. -/
def report (p : Progress) (event : Event) : Progress := { p with events := p.events ++ [event] }

/-- Works on the disk. -/
def onDisk {α : Type} (action : Disk.Action α) (p : Progress) :
    Except Disk.Fault α × Progress :=
  let (result, disk) := action.run p.disk
  (result, { p with disk := disk })

end Progress

namespace Task

/-- Work on the disk as a part of a build. -/
def onDisk {α : Type} (action : Disk.Action α) : Task α := do
  match ← (modifyGet (Progress.onDisk action) : Task (Except Disk.Fault α)) with
  | .ok value => pure value
  | .error fault => throw (.fault fault)

/-- Reports an event. -/
def report (event : Event) : Task Unit := modify (·.report event)

/-- Reports an event when the settings ask for details. -/
def detail (c : Config) (event : Event) : Task Unit :=
  if c.verbose then report event else pure ()

end Task

/-! ## Fragments -/

/-- The texts of the files below a folder, by their paths in it. -/
def textsBelow (folder : Path) : Disk.Action (List (Text × Text)) := do
  let place ← Disk.Action.locate folder
  pure (((← get).filesBelow place).map fun (segments, bytes) =>
    (join ['/'] segments, Exclusion.textOf bytes))

/-- Loads the fragments of a site. -/
def readFragments (c : Config) : Task Store := do
  if !(← get).disk.isFolder c.importsFolder then throw (.refused (.noImports c.importsFolder))
  let texts ← Task.onDisk (textsBelow c.importsFolder)
  let store := (Store.new c.imports c.content).putFiles c.imports texts
  let more ←
    if c.content != c.imports && (← get).disk.isFolder c.contentFolder then
      Task.onDisk (textsBelow c.contentFolder)
    else pure []
  Task.detail c (.loaded (texts.length + more.length))
  pure (store.putFiles c.content more)

/-! ## Files -/

/-- Whether a file is a page, by its name. -/
def isPage (segments : List Text) : Bool :=
  let name := segments.getLast?.getD []
  endsWith name Fragment.htmlExtension && Fragment.htmlExtension.length < name.length

/-- The path of a file of the site as it is reported. -/
def pathText (segments : List Text) : Text := join ['/'] segments

/-- Writes a file into the output folder, at the place it has below the root. -/
def writeOutput (c : Config) (segments : List Text) (bytes : List UInt8) : Disk.Action Unit := do
  Disk.Action.makeFolders true (c.outputFolder.below segments.dropLast)
  Disk.Action.writeFile (c.outputFolder.below segments) bytes

/-- What a walk over the site has found: the pages, and the files copied. -/
structure Found where
  pages : List (List Text)
  copied : List Text

/-- Takes a file of the site: a page is kept for later, any other file is copied. -/
def takeFile (c : Config) (segments : List Text) : StateT Found Task Unit := do
  if isPage segments then
    modify fun found => { found with pages := found.pages ++ [segments] }
  else do
    let copy : Disk.Action Unit := do
      writeOutput c segments (← Disk.Action.readFile (c.root.below segments))
    (Task.onDisk copy : Task Unit)
    modify fun found => { found with copied := found.copied ++ [pathText segments] }
    (Task.detail c (.copied (pathText segments)) : Task Unit)

/-- The names in a folder of the site. -/
def listFolder (c : Config) (segments : List Text) : Disk.Action (List (Text × Bool)) := do
  let place ← Disk.Action.locate (c.root.below segments)
  pure ((← get).names place)

/-- Walks over the site: copies the files that are no pages, and finds the pages. -/
def walk (c : Config) (e : Exclusion) : Task Found := do
  let depth := 2 * (← get).disk.height + 2
  let list (segments : List Text) : StateT Found Task (List (Text × Bool)) :=
    (Task.onDisk (listFolder c segments) : Task _)
  pure (← (visit list e (takeFile c) depth []).run ⟨[], []⟩).2

/-! ## Pages -/

/-- Compiles one page and writes it. The page is given by its segments below the root; a failure
is given in words. A compiled page that holds a surrogate fails when its file has been made, and
leaves it empty. -/
def makePage (compiler : Compiler) (c : Config) (segments : List Text) :
    StateM Progress (Except Text Unit) := do
  match ← modifyGet (Progress.onDisk (Disk.Action.readFile (c.root.below segments))) with
  | .error fault => pure (.error fault.message)
  | .ok bytes => do
      let path := char '/' :: pathText segments
      let (result, session) :=
        (compiler.publish path (Exclusion.textOf bytes)).run Session.start
      modify fun progress => session.log.foldl (fun p line => p.report (.warned line)) progress
      match result with
      | .error failure => pure (.error failure.message)
      | .ok page => do
          match ← modifyGet (Progress.onDisk (writeOutput c segments (written page))) with
          | .error fault => pure (.error fault.message)
          | .ok _ =>
              match unencodable? page with
              | some bad => pure (.error bad.message)
              | none => do
                  if c.verbose then
                    modify (·.report (.saved (c.outputFolder.below segments).text))
                  pure (.ok ())

/-- Builds a page and enters the outcome into the report. -/
def takePage (compiler : List Text → Compiler) (c : Config) (report : Report)
    (segments : List Text) : StateM Progress Report := do
  let page := pathText segments
  match ← makePage (compiler segments) c segments with
  | .ok _ => pure { report with pages := report.pages ++ [page] }
  | .error message => do
      modify (·.report (.failed page message))
      pure { report with failures := Table.set page message report.failures }

/-- Builds the pages one after the other. -/
def makePages (compiler : List Text → Compiler) (c : Config) (report : Report)
    (pages : List (List Text)) : StateM Progress Report :=
  pages.foldlM (takePage compiler c) report

/-! ## The whole build -/

/-- Wipes the output folder and makes it anew. -/
def wipeOutput (c : Config) : Disk.Action Unit := do
  if (← get).has c.outputFolder then Disk.Action.removeFolder c.outputFolder
  Disk.Action.makeFolders false c.outputFolder

/-- Builds a site. `markdown` turns Markdown into HTML, `markers` gives the supply of each page,
and `schedule` the order in which the pages are built. -/
def build (markdown : Text → Except Overlong Text) (markers : List Text → Markers)
    (schedule : List (List Text) → List (List Text)) (c : Config) : Task Report := do
  if let some refusal := c.refusal? (← get).disk.here then throw (.refused refusal)
  let store ← readFragments c
  Task.onDisk (wipeOutput c)
  let names ← Task.onDisk (Exclusion.readNames c)
  let found ← walk c ⟨names, Exclusion.foldersOf c⟩
  let compiler (segments : List Text) : Compiler :=
    ⟨store, c.activeClass, markdown, c.maxDepth, markers segments⟩
  let report ← (makePages compiler c ⟨[], found.copied, []⟩ (schedule found.pages) :
    StateM Progress Report)
  let report := { report with pages := report.pages.mergeSort fun a b => !(b < a) }
  Task.report (.compiled report.pages.length)
  if !report.failures.isEmpty then Task.report (.withFailures report.failures.length)
  pure report

end Stencil.Site
