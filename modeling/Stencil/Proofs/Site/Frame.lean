import Stencil.Proofs.Site.Build

set_option autoImplicit false

/-! # A build touches nothing but its output folder

A build goes through three parts. It loads the fragments, and only here can it be refused, with
the disk as it was. It then makes the output folder anew and walks the site, and at last it
compiles the pages. Whatever goes wrong in the last two, each of their steps keeps the files
outside the output folder (`build_touches_output`): all that is written has a place below it,
since the names that a walk finds on a disk never mean a step up.
-/

namespace Stencil.Site

open Text Disk Disk.Action

/-! ## The parts of a build -/

/-- The first part of a build: the settings are checked and the fragments loaded. -/
def load (c : Config) : Task Store := do
  if let some refusal := c.refusal? (← get).disk.here then throw (.refused refusal)
  readFragments c

/-- The second part: the output folder is wiped, and the site is walked. -/
def stage (c : Config) : Task Found := do
  Task.onDisk (wipeOutput c)
  let names ← Task.onDisk (Exclusion.readNames c)
  walk c ⟨names, Exclusion.foldersOf c⟩

/-- The third part: the pages are built, in a given order. -/
def finish (compiler : List Text → Compiler) (c : Config) (pages : List (List Text))
    (copied : List Text) : Task Report := do
  let report ← (makePages compiler c ⟨[], copied, []⟩ pages : StateM Progress Report)
  let report := { report with pages := report.pages.mergeSort fun a b => !(b < a) }
  Task.report (.compiled report.pages.length)
  if !report.failures.isEmpty then Task.report (.withFailures report.failures.length)
  pure report

/-- The compiler of each page of a site. -/
def compilerOf (markdown : Text → Except Overlong Text) (markers : List Text → Markers) (c : Config)
    (store : Store) (segments : List Text) : Compiler :=
  ⟨store, c.activeClass, markdown, c.maxDepth, markers segments⟩

theorem build_eq (markdown : Text → Except Overlong Text) (markers : List Text → Markers)
    (schedule : List (List Text) → List (List Text)) (c : Config) :
    build markdown markers schedule c = (do
      let store ← load c
      let found ← stage c
      finish (compilerOf markdown markers c store) c (schedule found.pages) found.copied) := by
  unfold build load stage
  simp only [bind_assoc]
  refine bind_congr fun p => ?_
  cases c.refusal? p.disk.here with
  | none => rfl
  | some refusal => rfl

/-! ## Being refused -/

section

variable {c : Config} {d : Disk} {p p' : Progress} {out : List Text} {compiler : List Text → Compiler}

/-- Why a build is refused on a disk: for its settings, or for the lack of fragments. -/
def refusalOn? (c : Config) (d : Disk) : Option Config.Refusal :=
  (c.refusal? d.here).or
    (if d.isFolder c.importsFolder then none else some (.noImports c.importsFolder))

theorem isInside_iff {folder place : List Text} :
    Config.isInside folder place = true ↔ folder <+: place ∧ place ≠ folder := by
  simp [Config.isInside]

theorem exists_refusalOn_iff : (∃ refusal, refusalOn? c d = some refusal) ↔
    ¬ (c.root.resolve d.here <+: c.outputFolder.resolve d.here ∧
        c.outputFolder.resolve d.here ≠ c.root.resolve d.here) ∨
      c.workers < 1 ∨ d.isFolder c.importsFolder = false := by
  rw [← isInside_iff, refusalOn?, Config.refusal?]
  by_cases hin : Config.isInside (c.root.resolve d.here) (c.outputFolder.resolve d.here) = true
  · by_cases hworkers : c.workers < 1
    · simp [hin, hworkers]
    · simp [hin, hworkers]
  · simp [hin]

/-- The first part of a build leaves the disk as it is, and is refused as the disk says. -/
theorem of_runFrom_load (c : Config) (p : Progress) :
    (runFrom (load c) p).2.disk = p.disk ∧ ∀ refusal,
      (runFrom (load c) p).1 = .error (.refused refusal) ↔ refusalOn? c p.disk = some refusal := by
  rw [load, runFrom_get_bind]
  dsimp only
  cases hrefusal : c.refusal? p.disk.here with
  | some refusal =>
      refine ⟨rfl, fun refusal' => ?_⟩
      rw [refusalOn?, hrefusal, Option.some_or]
      show (Except.error (Stop.refused refusal) : Except Stop Store) = .error (.refused refusal') ↔ _
      simp
  | none =>
      have hkeep := keeps_readFragments c p.disk
      refine ⟨hkeep.invariant rfl, fun refusal => ?_⟩
      rw [refusalOn?, hrefusal, Option.none_or]
      by_cases hfolder : p.disk.isFolder c.importsFolder = true
      · refine iff_of_false (fun hrun => ?_) (by simp [hfolder])
        rcases (hkeep.of_error rfl (Prod.ext hrun rfl)).1 with ⟨fault, hfault⟩ | ⟨hmissing, -⟩
        · cases hfault
        · rw [hfolder] at hmissing
          cases hmissing
      · have hmissing : runFrom (readFragments c) p
            = (.error (.refused (.noImports c.importsFolder)), p) := by
          rw [readFragments, runFrom_get_bind]
          simp only [hfolder, Bool.not_false, if_true]
          rfl
        dsimp only
        rw [hmissing, if_neg hfolder]
        simp

theorem exists_runFrom_load {store : Store} (hrefusal : c.refusal? p.disk.here = none)
    (hstore : (runFrom (readFragments c) p).1 = .ok store) :
    ∃ p₁, runFrom (load c) p = (.ok store, p₁) ∧ p₁.disk = p.disk := by
  refine ⟨(runFrom (readFragments c) p).2, ?_, (keeps_readFragments c p.disk).invariant rfl⟩
  rw [load, runFrom_get_bind]
  simp only [hrefusal]
  exact Prod.ext hstore rfl

/-- A fault on the way to an empty output folder stops the build, with the disk as it is then. -/
theorem exists_runFrom_build_of_fault {store : Store} {fault : Fault} {D : Disk}
    (hrefusal : c.refusal? p.disk.here = none)
    (hstore : (runFrom (readFragments c) p).1 = .ok store)
    (hwipe : runFrom (wipeOutput c) p.disk = (.error fault, D))
    (markdown : Text → Except Overlong Text) (markers : List Text → Markers)
    (schedule : List (List Text) → List (List Text)) :
    ∃ p', runFrom (build markdown markers schedule c) p = (.error (.fault fault), p') ∧
      p'.disk = D := by
  obtain ⟨p₁, hload, hdisk⟩ := exists_runFrom_load hrefusal hstore
  refine ⟨{ p₁ with disk := D }, ?_, rfl⟩
  have hstage : runFrom (stage c) p₁ = (.error (.fault fault), { p₁ with disk := D }) := by
    rw [stage, runFrom_bind, runFrom_onDisk, hdisk, hwipe]
  rw [build_eq, runFrom_bind_of_ok hload, runFrom_bind, hstage]

/-! ## Walking -/

section

variable {I : Progress → Prop} {J : Found → Prop} {E : Stop → Prop} {e : Exclusion}
  {list : List Text → StateT Found Task (List (Text × Bool))}
  {file : List Text → StateT Found Task Unit}

theorem keeps_forM {α : Type} {work : α → StateT Found Task Unit} {names : List α}
    (h : ∀ x ∈ names, ∀ found, J found → Keeps I (fun r => J r.2) E ((work x).run found))
    {found : Found} (hfound : J found) :
    Keeps I (fun r => J r.2) E ((names.forM work).run found) := by
  induction names generalizing found with
  | nil => exact keeps_pure hfound
  | cons x names ih =>
      obtain ⟨hx, hnames⟩ := List.forall_mem_cons.1 h
      show Keeps _ _ _ (StateT.run (work x >>= fun _ => names.forM work) found)
      rw [StateT.run_bind]
      exact (hx found hfound).bind fun r hr => ih hnames hr

/-- What the listing of each folder and the taking of each file keep, a visit keeps, if the names
listed are no steps up. -/
theorem keeps_visit
    (hlist : ∀ folder, Path.up ∉ folder → ∀ found, J found →
      Keeps I (fun r => (∀ x ∈ r.1, x.1 ≠ Path.up) ∧ J r.2) E ((list folder).run found))
    (hfile : ∀ s, Path.up ∉ s → ∀ found, J found →
      Keeps I (fun r => J r.2) E ((file s).run found))
    (depth : Nat) {folder : List Text} (hfolder : Path.up ∉ folder) {found : Found}
    (hfound : J found) :
    Keeps I (fun r => J r.2) E ((visit list e file depth folder).run found) := by
  induction depth generalizing folder found with
  | zero => exact keeps_pure hfound
  | succ depth ih =>
      rw [visit, StateT.run_bind]
      refine (hlist folder hfolder found hfound).bind fun r hr => keeps_forM (fun x hx found h => ?_)
        hr.2
      have hname : Path.up ∉ folder ++ [x.1] := by
        rw [List.mem_append, List.mem_singleton, not_or]
        exact ⟨hfolder, (hr.1 x hx).symm⟩
      dsimp only
      split
      · exact keeps_pure h
      · split
        · exact ih hname h
        · exact hfile _ hname found h

end

/-! ## Work inside the output folder -/

/-- The files outside the output folder are those of an earlier disk. -/
abbrev IsFramedBy (c : Config) (d : Disk) (p : Progress) : Prop :=
  IsFramed (c.outputFolder.resolve d.here) d p.disk

theorem keeps_writeOutput {s : List Text} (hs : Path.up ∉ s) (bytes : List UInt8) :
    Keeps (IsFramed (c.outputFolder.resolve d.here) d) (fun _ => True) (fun _ => True)
      (writeOutput c s bytes) := by
  refine (keeps_makeFolders true _).bind fun _ _ => keeps_writeFile ?_ bytes
  rw [Path.resolve_below hs]
  exact List.prefix_append _ _

theorem keeps_wipeOutput :
    Keeps (IsFramed (c.outputFolder.resolve d.here) d) (fun _ => True) (fun _ => True)
      (wipeOutput c) := by
  refine keeps_get.bind fun D _ => ?_
  split
  · exact (keeps_removeFolder rfl).bind fun _ _ => keeps_makeFolders false _
  · exact keeps_makeFolders false _

/-- Reading the names that are left out leaves the disk as it is. -/
theorem keeps_readNames (I : Disk → Prop) (c : Config) :
    Keeps I (fun _ => True) (fun _ => True) (Exclusion.readNames c) := by
  have hignored : Keeps I (fun _ => True) (fun _ => True) (Exclusion.readIgnored c.root) := by
    refine keeps_get.bind fun D _ => ?_
    split
    · exact (keeps_readFile I _).bind fun _ _ => keeps_pure trivial
    · exact keeps_pure trivial
  exact hignored.bind fun _ _ => keeps_pure trivial

theorem keeps_listFolder (s : List Text) :
    Keeps (IsFramed out d) (fun names => ∀ x ∈ names, x.1 ≠ Path.up) (fun _ => True)
      (listFolder c s) :=
  (keeps_locate _).bind fun _ _ => keeps_get.bind fun _ hD => keeps_pure fun _ => hD.mem_names

theorem keeps_takeFile {s : List Text} (hs : Path.up ∉ s) {found : Found}
    (hfound : ∀ t ∈ found.pages, Path.up ∉ t) :
    Keeps (IsFramedBy c d) (fun r => ∀ t ∈ r.2.pages, Path.up ∉ t) Stop.IsFault
      ((takeFile c s).run found) := by
  by_cases hpage : isPage s = true
  · rw [run_takeFile_of_page hpage]
    refine keeps_pure fun t ht => ?_
    rcases List.mem_append.1 ht with ht | ht
    · exact hfound t ht
    · rwa [List.mem_singleton.1 ht]
  · rw [run_takeFile_of_not_page hpage]
    refine (keeps_onDisk ((keeps_readFile _ _).bind fun _ _ => keeps_writeOutput hs _)).bind fun _ _ => ?_
    exact (keeps_detail _ _ c _).bind fun _ _ => keeps_pure hfound

theorem keeps_walk (e : Exclusion) :
    Keeps (IsFramedBy c d) (fun found => ∀ s ∈ found.pages, Path.up ∉ s) Stop.IsFault
      (walk c e) := by
  refine keeps_get.bind fun state _ => ?_
  refine (keeps_visit (J := fun found => ∀ t ∈ found.pages, Path.up ∉ t)
    (fun folder _ found hfound => ?_) (fun s hs found hfound => keeps_takeFile hs hfound) _
    List.not_mem_nil (by simp)).bind fun r hr => keeps_pure hr
  exact (keeps_onDisk (keeps_listFolder folder)).bind fun names hnames =>
    keeps_pure ⟨hnames, hfound⟩

theorem keeps_stage (c : Config) (d : Disk) :
    Keeps (IsFramedBy c d) (fun found => ∀ s ∈ found.pages, Path.up ∉ s) Stop.IsFault (stage c) :=
  (keeps_onDisk keeps_wipeOutput).bind fun _ _ => (keeps_onDisk (keeps_readNames _ c)).bind fun _ _ =>
    keeps_walk _

/-! ## Building the pages -/

theorem maintains_onDisk {α : Type} {I : Disk → Prop} {P : α → Prop} {E : Fault → Prop}
    {action : Disk.Action α} (h : Keeps I P E action) :
    Maintains (fun p : Progress => I p.disk) (modifyGet (Progress.onDisk action)) :=
  fun _ hp => h.invariant hp

theorem maintains_report (event : Event) :
    Maintains (IsFramedBy c d) (modify (Progress.report · event)) := fun _ hp => hp

theorem maintains_makePage {compiler : Compiler} {s : List Text} (hs : Path.up ∉ s) :
    Maintains (IsFramedBy c d) (makePage compiler c s) := by
  have hlog : ∀ (log : List Text), Maintains (IsFramedBy c d) (modify fun progress =>
      log.foldl (fun p line => p.report (.warned line)) progress) := by
    refine fun log => maintains_modify fun p hp => ?_
    obtain ⟨events, hwarned⟩ := exists_warned log p
    rwa [hwarned]
  refine (maintains_onDisk (keeps_readFile _ _)).bind fun read => ?_
  cases read with
  | error fault => exact maintains_pure _
  | ok bytes =>
      refine (hlog _).bind fun _ => ?_
      dsimp only
      split
      · exact maintains_pure _
      · refine (maintains_onDisk (keeps_writeOutput hs _)).bind fun written => ?_
        cases written with
        | error fault => exact maintains_pure _
        | ok _ =>
            dsimp only
            split
            · exact maintains_pure _
            · split
              · exact Maintains.bind (maintains_report _) fun _ => maintains_pure _
              · exact maintains_pure _

theorem maintains_takePage {report : Report} {s : List Text} (hs : Path.up ∉ s) :
    Maintains (IsFramedBy c d) (takePage compiler c report s) := by
  refine (maintains_makePage hs).bind fun result => ?_
  cases result with
  | ok _ => exact maintains_pure _
  | error message => exact Maintains.bind (maintains_report _) fun _ => maintains_pure _

theorem maintains_makePages {report : Report} {pages : List (List Text)}
    (hpages : ∀ s ∈ pages, Path.up ∉ s) :
    Maintains (IsFramedBy c d) (makePages compiler c report pages) := by
  induction pages generalizing report with
  | nil => exact maintains_pure _
  | cons s pages ih =>
      obtain ⟨hs, hpages⟩ := List.forall_mem_cons.1 hpages
      rw [makePages, List.foldlM_cons]
      exact (maintains_takePage hs).bind fun _ => ih hpages

theorem keeps_report (event : Event) :
    Keeps (IsFramedBy c d) (fun _ => True) Stop.IsFault (Task.report event) :=
  keeps_modify fun _ hp => hp

theorem keeps_finish {pages : List (List Text)} (hpages : ∀ s ∈ pages, Path.up ∉ s)
    (copied : List Text) :
    Keeps (IsFramedBy c d) (fun _ => True) Stop.IsFault (finish compiler c pages copied) := by
  have hmake : Keeps (IsFramedBy c d) (fun _ => True) Stop.IsFault
      (liftM (makePages compiler c ⟨[], copied, []⟩ pages) : Task Report) :=
    fun p hp => ⟨trivial, maintains_makePages hpages p hp⟩
  refine hmake.bind fun report _ => (keeps_report _).bind fun _ _ => ?_
  split
  · exact (keeps_report _).bind fun _ _ => keeps_pure trivial
  · exact keeps_pure trivial

/-! ## The whole build -/

/-- **A build touches nothing but its output folder.** It is refused exactly when its output folder
does not lie inside the root, when it has no workers, or when there is no folder of fragments, and
then the disk stays as it is. However it ends, the files outside the output folder are the files
that were there, with the bytes that they had. -/
theorem build_touches_output (hdisk : p.disk.WellFormed) (markdown : Text → Except Overlong Text)
    (markers : List Text → Markers) {schedule : List (List Text) → List (List Text)}
    (hschedule : ∀ pages, schedule pages ⊆ pages) {result : Except Stop Report}
    (hrun : runFrom (build markdown markers schedule c) p = (result, p')) :
    ((∃ refusal, result = .error (.refused refusal)) ↔
        ¬ (c.root.resolve p.disk.here <+: c.outputFolder.resolve p.disk.here ∧
            c.outputFolder.resolve p.disk.here ≠ c.root.resolve p.disk.here) ∨
          c.workers < 1 ∨ p.disk.isFolder c.importsFolder = false) ∧
      (∀ refusal, result = .error (.refused refusal) → p'.disk = p.disk) ∧
      ∀ q, ¬ c.outputFolder.resolve p.disk.here <+: q → ∀ bytes,
        p'.disk.get? q = some (.file bytes) ↔ p.disk.get? q = some (.file bytes) := by
  obtain ⟨hload, hrefused⟩ := of_runFrom_load c p
  have hframed : IsFramedBy c p.disk p := hdisk.isFramed _
  rw [build_eq, runFrom_bind] at hrun
  rw [← exists_refusalOn_iff]
  cases hstore : runFrom (load c) p with
  | mk loaded p₁ =>
      rw [hstore] at hload hrefused hrun
      dsimp only at hload hrefused hrun
      cases loaded with
      | error stop =>
          -- Nothing has been written yet.
          cases hrun
          refine ⟨exists_congr fun refusal => ?_, fun _ _ => hload, fun q _ bytes => ?_⟩
          · rw [← hrefused refusal]
            simp
          · rw [hload]
      | ok store =>
          have hframed₁ : IsFramedBy c p.disk p₁ := by rwa [IsFramedBy, hload]
          have hrest : Keeps (IsFramedBy c p.disk) (fun _ => True) Stop.IsFault (do
              let found ← stage c
              finish (compilerOf markdown markers c store) c (schedule found.pages) found.copied) :=
            (keeps_stage c p.disk).bind fun found hfound =>
              keeps_finish (fun s hs => hfound s (hschedule _ hs)) _
          -- From here on only faults stop the build, and every step keeps the files around.
          have hnot : ∀ refusal, result ≠ .error (.refused refusal) := by
            rintro refusal rfl
            obtain ⟨fault, hfault⟩ := (hrest.of_error hframed₁ hrun).1
            cases hfault
          have hafter : IsFramedBy c p.disk p' := by
            rw [← show _ = p' from congrArg Prod.snd hrun]
            exact hrest.invariant hframed₁
          refine ⟨?_, fun refusal h => absurd h (hnot refusal), hafter.files⟩
          constructor
          · rintro ⟨refusal, h⟩
            exact absurd h (hnot refusal)
          · rintro ⟨refusal, h⟩
            exact absurd ((hrefused refusal).2 h) (by simp)

end

/-- Settings whose output folder is reached through a folder that is missing. -/
def detourConfig : Config := { Config.default with output := "drafts/../public".text }

/-- The folder on the way is made, then the output folder turns out to be there: the build stops,
and every file of the site stays. -/
theorem build_touches_output_oldBlog :
    ∃ fault p', runFrom (build .ok (fun _ => decimal) List.reverse detourConfig) ⟨oldBlog, []⟩
        = (.error (.fault fault), p') ∧
      p'.disk.get? (placeOf "site/drafts") = some .folder ∧
      p'.disk.get? (placeOf "site/index.html") = some (.file (utf8 "Hi".text)) ∧
      ∀ bytes, p'.disk.get? (placeOf "site/stray.html") ≠ some (.file bytes) := by
  have hdisk : oldBlog.WellFormed := by decide +kernel
  have hout : detourConfig.outputFolder.resolve oldBlog.here = placeOf "site/public" := by
    decide +kernel
  have hindex : oldBlog.get? (placeOf "site/index.html") = some (.file (utf8 "Hi".text)) := by
    decide +kernel
  have hstray : oldBlog.get? (placeOf "site/stray.html") = none := by decide +kernel
  have hstore : (runFrom (readFragments detourConfig) ⟨oldBlog, []⟩).1
      = .ok (.new detourConfig.imports detourConfig.content) :=
    runFrom_readFragments_of_empty (placeOf "site/_imports") rfl (by decide +kernel)
      (by decide +kernel) (forall_mem_filesBelow.2 (by decide +kernel))
  obtain ⟨D, hwipe, hfolder⟩ : ∃ D, runFrom (wipeOutput detourConfig) oldBlog
      = (.error ⟨.present, detourConfig.outputFolder⟩, D) ∧
        D.get? (placeOf "site/drafts") = some .folder :=
    ⟨_, Prod.ext (by decide +kernel) rfl, by decide +kernel⟩
  obtain ⟨p', hrun, rfl⟩ := exists_runFrom_build_of_fault (p := ⟨oldBlog, []⟩)
    (by decide +kernel) hstore hwipe .ok (fun _ => decimal) List.reverse
  obtain ⟨-, -, hkept⟩ := build_touches_output hdisk .ok (fun _ => decimal)
    (fun _ => List.reverse_subset.2 fun _ h => h) hrun
  dsimp only at hkept
  rw [hout] at hkept
  refine ⟨_, p', hrun, hfolder, (hkept _ (by decide) _).2 hindex, fun bytes hfile => ?_⟩
  rw [hkept _ (by decide), hstray] at hfile
  cases hfile

end Stencil.Site
