import Stencil.Proofs.Site.Copy
import Stencil.Proofs.Table
import Stencil.Proofs.Work

set_option autoImplicit false

/-! # Compiling the pages

A page is compiled on its own from its bytes, so what becomes of it does not depend on the pages
done before (`published`). The pages of a site are built one after the other; each is entered into
the report once, as built or with the reason why it could not be compiled or written
(`exists_makePages`).
-/

namespace Stencil

open Text

/-- The bytes of the file at a place. -/
def Disk.bytesAt (d : Disk) (place : List Text) : List UInt8 :=
  match d.get? place with
  | some (.file bytes) => bytes
  | _ => []

theorem Disk.bytesAt_of_file {d : Disk} {place : List Text} {bytes : List UInt8}
    (h : d.get? place = some (.file bytes)) : d.bytesAt place = bytes := by
  rw [bytesAt, h]

namespace Site

open Disk Action

/-- What a page of a site is compiled into, given by its segments below the root. -/
def published (compiler : List Text → Compiler) (d : Disk) (root s : List Text) :
    Except Failure Text :=
  (Work.outcome ((compiler s).publish ('/' :: pathText s)
    (Exclusion.textOf (d.bytesAt (root ++ s)))) Session.start).1

/-- Why a page fails, in words: it cannot be compiled, or what it is compiled into cannot be
written. -/
def reason? : Except Failure Text → Option Text
  | .error failure => some failure.message
  | .ok page => (unencodable? page).map Unencodable.message

/-- The bytes a file of a site becomes, if it becomes a file. -/
def outputOf (compiler : List Text → Compiler) (d : Disk) (root s : List Text) :
    Option (List UInt8) :=
  if isPage s then (published compiler d root s).toOption.map written
  else some (d.bytesAt (root ++ s))

/-- The path of a page that is built. -/
def builtPath? (compiler : List Text → Compiler) (d : Disk) (root s : List Text) : Option Text :=
  if reason? (published compiler d root s) = none then some (pathText s) else none

section

variable {compiler : List Text → Compiler} {c : Config} {root out s : List Text} {d W D : Disk}
  {done pages : List (List Text)} {p : Progress} {report : Report} {source : List UInt8}

/-! ## One page -/

theorem exists_warned (log : List Text) (p : Progress) :
    ∃ events, log.foldl (fun p line => p.report (.warned line)) p
      = { p with events := events } := by
  induction log generalizing p with
  | nil => exact ⟨p.events, rfl⟩
  | cons line log ih => exact ih (p.report (.warned line))

theorem run_bind_of_eq {α β : Type} {x : StateM Progress α} {a : α} {p p' : Progress}
    (h : Id.run (x.run p) = (a, p')) (f : α → StateM Progress β) :
    Id.run (StateT.run (x >>= f) p) = Id.run ((f a).run p') := by
  have hbind : Id.run (StateT.run (x >>= f) p)
      = Id.run ((f (Id.run (x.run p)).1).run (Id.run (x.run p)).2) := rfl
  rw [hbind, h]

theorem run_onDisk_bind {α β : Type} (action : Action α)
    (f : Except Disk.Fault α → StateM Progress β) (p : Progress) :
    Id.run (StateT.run (modifyGet (Progress.onDisk action) >>= f) p)
      = Id.run ((f (runFrom action p.disk).1).run { p with disk := (runFrom action p.disk).2 }) :=
  rfl

theorem run_modify_bind {β : Type} (change : Progress → Progress) (f : Unit → StateM Progress β)
    (p : Progress) :
    Id.run (StateT.run (modify change >>= f) p) = Id.run ((f ()).run (change p)) := rfl

/-- A page whose bytes can be read is compiled, and what the compiler says is reported. -/
theorem run_makePage {compiler : Compiler} {result : Except Failure Text}
    (hread : runFrom (readFile (c.root.below s)) p.disk = (.ok source, p.disk))
    (hresult : (Work.outcome (compiler.publish ('/' :: pathText s) (Exclusion.textOf source))
      Session.start).1 = result) :
    ∃ events, Id.run ((makePage compiler c s).run p) = Id.run (StateT.run (match result with
      | .error failure => pure (.error failure.message)
      | .ok page => do
          match ← modifyGet (Progress.onDisk (writeOutput c s (written page))) with
          | .error fault => pure (.error fault.message)
          | .ok _ =>
              match unencodable? page with
              | some bad => pure (.error bad.message)
              | none => do
                  if c.verbose then
                    modify (·.report (.saved (c.outputFolder.below s).text))
                  pure (.ok ()) : StateM Progress (Except Text Unit))
      { p with events := events }) := by
  cases hrun : Work.outcome (compiler.publish ('/' :: pathText s) (Exclusion.textOf source))
    Session.start with
  | mk result' session =>
      obtain rfl : result' = result := by rw [← hresult, hrun]
      obtain ⟨events, hlog⟩ := exists_warned session.log p
      have hpublish : ExceptT.run (compiler.publish ('/' :: pathText s) (Exclusion.textOf source))
        Session.start = (result', session) := hrun
      refine ⟨events, ?_⟩
      unfold makePage
      rw [run_onDisk_bind, hread]
      simp only [hpublish]
      rw [run_modify_bind]
      exact congrArg (fun progress => Id.run (StateT.run _ progress)) hlog

theorem run_makePage_of_error {compiler : Compiler} {failure : Failure}
    (hread : runFrom (readFile (c.root.below s)) p.disk = (.ok source, p.disk))
    (hfail : (Work.outcome (compiler.publish ('/' :: pathText s) (Exclusion.textOf source))
      Session.start).1 = .error failure) :
    ∃ events, Id.run ((makePage compiler c s).run p)
      = (.error failure.message, { p with events := events }) :=
  run_makePage hread hfail

/-- What a page ends with once it is compiled and its file made. -/
theorem run_makePage_of_ok {compiler : Compiler} {page : Text}
    (hread : runFrom (readFile (c.root.below s)) p.disk = (.ok source, p.disk))
    (hpage : (Work.outcome (compiler.publish ('/' :: pathText s) (Exclusion.textOf source))
      Session.start).1 = .ok page)
    (hwrite : runFrom (writeOutput c s (written page)) p.disk = (.ok (), D)) :
    ∃ events, Id.run ((makePage compiler c s).run p)
      = (match reason? (.ok page) with
          | some message => .error message
          | none => .ok (), ⟨D, events⟩) := by
  obtain ⟨events, hrun⟩ := run_makePage hread hpage
  rw [hrun]
  dsimp only
  rw [run_onDisk_bind, hwrite, reason?]
  dsimp only
  cases unencodable? page with
  | some bad => exact ⟨events, rfl⟩
  | none =>
      by_cases hverbose : c.verbose = true
      · rw [if_pos hverbose]
        exact ⟨_, rfl⟩
      · rw [if_neg hverbose]
        exact ⟨events, rfl⟩

/-! ## All pages -/

theorem run_takePage_of_error {message : Text} {p' : Progress}
    (h : Id.run ((makePage (compiler s) c s).run p) = (.error message, p')) :
    Id.run ((takePage compiler c report s).run p)
      = ({ report with failures := Table.set (pathText s) message report.failures },
        p'.report (.failed (pathText s) message)) := by
  rw [takePage, run_bind_of_eq h]
  rfl

theorem run_takePage_of_ok {p' : Progress}
    (h : Id.run ((makePage (compiler s) c s).run p) = (.ok (), p')) :
    Id.run ((takePage compiler c report s).run p)
      = ({ report with pages := report.pages ++ [pathText s] }, p') := by
  rw [takePage, run_bind_of_eq h]
  rfl

end

end Site
end Stencil
