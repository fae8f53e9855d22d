import Stencil.Proofs.Site.Frame
import Stencil.Proofs.Site.Pool

set_option autoImplicit false

/-! # Pages do not depend on each other

A build hands its pages to a pool of workers (`WorkersBuild`). Whatever order the workers come
upon, the build ends in the same way, with the same disk and the same report, and what becomes of
a page is said by its own text, its path, the fragments, the settings and its supply of markers
(`pages_independent`). This holds for every output folder, also for one that the walk enters: no
page lies there, and what is written there is read by no task.
-/

namespace Stencil.Site

open Text Disk Disk.Action

/-! ## Builds with workers -/

/-- How a build with workers may end, and on which disk: it is stopped before its pages, or its
pool comes to an end. -/
inductive WorkersBuild (markdown : Text → Except Overlong Text)
    (markers : List Text → Markers) (c : Config) (p : Progress) : Except Stop Report → Disk → Prop
  | unloaded {stop : Stop} {p' : Progress} (hload : runFrom (load c) p = (.error stop, p')) :
      WorkersBuild markdown markers c p (.error stop) p'.disk
  | unstaged {store : Store} {p₁ p' : Progress} {stop : Stop}
      (hload : runFrom (load c) p = (.ok store, p₁))
      (hstage : runFrom (stage c) p₁ = (.error stop, p')) :
      WorkersBuild markdown markers c p (.error stop) p'.disk
  | done {store : Store} {p₁ p₂ : Progress} {found : Found} {pool : Pool}
      (hload : runFrom (load c) p = (.ok store, p₁))
      (hstage : runFrom (stage c) p₁ = (.ok found, p₂))
      (hrun : Pool.Run (compilerOf markdown markers c store) c
        (.start found.pages found.copied p₂) pool)
      (hdone : pool.IsDone) :
      WorkersBuild markdown markers c p
        (.ok { pool.report with pages := pool.report.pages.mergeSort fun a b => !(b < a) })
        pool.progress.disk

/-- Whether two builds end in the same way: stopped for the same reason, or with reports that say
the same, the failures taken as a map. -/
def SameOutcome : Except Stop Report → Except Stop Report → Prop
  | .error stop, .error stop' => stop = stop'
  | .ok report, .ok report' => report.pages = report'.pages ∧ report.copied = report'.copied ∧
      ∀ path, Table.get? report.failures path = Table.get? report'.failures path
  | _, _ => False

section

variable {c : Config} {d W : Disk} {p p' p₁ p₂ : Progress} {store : Store} {found : Found}
  {markdown : Text → Except Overlong Text} {markers : List Text → Markers} {s : List Text}

theorem runFrom_finish (compiler : List Text → Compiler) (c : Config) (pages : List (List Text))
    (copied : List Text) (p : Progress) :
    ∃ events, runFrom (finish compiler c pages copied) p
      = (.ok { (Id.run ((makePages compiler c ⟨[], copied, []⟩ pages).run p)).1 with
          pages := (Id.run ((makePages compiler c ⟨[], copied, []⟩ pages).run p)).1.pages.mergeSort
            fun a b => !(b < a) },
        ⟨(Id.run ((makePages compiler c ⟨[], copied, []⟩ pages).run p)).2.disk, events⟩) := by
  rw [finish, runFrom_bind_of_ok (runFrom_liftM _ _), runFrom_bind_of_ok (runFrom_report _ _)]
  split
  · rw [runFrom_bind_of_ok (runFrom_report _ _)]
    exact ⟨_, rfl⟩
  · exact ⟨_, rfl⟩

/-- A build that does its pages one after the other is one with workers, in whichever order it
does them. -/
theorem workersBuild_build (markdown : Text → Except Overlong Text)
    (markers : List Text → Markers) (c : Config) {schedule : List (List Text) → List (List Text)}
    (hschedule : ∀ pages, (schedule pages).Perm pages) (p : Progress) :
    WorkersBuild markdown markers c p (runFrom (build markdown markers schedule c) p).1
      (runFrom (build markdown markers schedule c) p).2.disk := by
  rw [build_eq, runFrom_bind]
  cases hload : runFrom (load c) p with
  | mk loaded p₁ =>
      cases loaded with
      | error stop => exact .unloaded hload
      | ok store =>
          dsimp only
          rw [runFrom_bind]
          cases hstage : runFrom (stage c) p₁ with
          | mk staged p₂ =>
              cases staged with
              | error stop => exact .unstaged hload hstage
              | ok found =>
                  obtain ⟨events, hfinish⟩ := runFrom_finish (compilerOf markdown markers c store) c
                    (schedule found.pages) found.copied p₂
                  dsimp only
                  rw [hfinish]
                  exact .done hload hstage
                    (run_makePages (schedule found.pages) _ p₂ (hschedule found.pages)) ⟨rfl, rfl⟩

/-! ## The pages of a site -/

/-- A page of the site that a build is about, said by the disk it begins with: a file with the name
of a page, outside the output folder, and nothing on the way to it is left out. -/
structure IsSitePage (c : Config) (d : Disk) (s : List Text) : Prop where
  page : isPage s = true
  source : ∃ bytes, d.get? (c.root.resolve d.here ++ s) = some (.file bytes)
  outside : ¬ c.outputFolder.resolve d.here <+: c.root.resolve d.here ++ s
  kept : ∀ t, t ≠ [] → t <+: s → ¬ (exclusionOf c d (c.root.resolve d.here)).skips t = true

/-- What is known once a build comes to its pages: the disk as it was wiped, and that the pages
found are those of the site. -/
structure IsStaged (c : Config) (d W : Disk) (found : Found) (p : Progress) : Prop where
  wiped : IsWiped c (c.root.resolve d.here) (c.outputFolder.resolve d.here) d W
  walked : IsWalked c (c.root.resolve d.here) (c.outputFolder.resolve d.here) W p.disk
  found_iff : ∀ s, s ∈ found.pages ↔ IsSitePage c d s

theorem inside_of_refusal?_eq_none (h : c.refusal? d.here = none) :
    c.root.resolve d.here <+: c.outputFolder.resolve d.here ∧
      c.root.resolve d.here ≠ c.outputFolder.resolve d.here := by
  rw [Config.refusal?] at h
  split at h
  · cases h
  · rename_i hinside
    obtain ⟨hpre, hne⟩ := isInside_iff.1 (by simpa using hinside)
    exact ⟨hpre, hne.symm⟩

theorem refusal?_of_load (hload : runFrom (load c) p = (.ok store, p₁)) :
    c.refusal? p.disk.here = none ∧ runFrom (readFragments c) p = (.ok store, p₁) ∧
      p₁.disk = p.disk := by
  have hdisk := (of_runFrom_load c p).1
  rw [hload] at hdisk
  rw [load, runFrom_get_bind] at hload
  cases hrefusal : c.refusal? p.disk.here with
  | some refusal =>
      simp only [hrefusal] at hload
      cases hload
  | none =>
      simp only [hrefusal] at hload
      exact ⟨rfl, hload, hdisk⟩

/-- A walk that succeeds has found the root. -/
theorem locate_root_of_walk {e : Exclusion} (hrun : runFrom (walk c e) p = (.ok found, p')) :
    p.disk.locate c.root = .ok (c.root.resolve p.disk.here) := by
  have hbelow : c.root.below [] = c.root := by rw [Path.below, List.append_nil]
  cases hplace : p.disk.locate c.root with
  | ok place => rw [resolve_eq_of_locate hplace]
  | error trouble =>
      have hlist : runFrom (listFolder c []) p.disk = (.error ⟨trouble, c.root⟩, p.disk) := by
        rw [listFolder, hbelow, runFrom_bind, runFrom_locate, hplace]
      have hlisting : runFrom ((listing c []).run ⟨[], []⟩) p
          = (.error (.fault ⟨trouble, c.root⟩), p) := by
        have hlift : (listing c []).run ⟨[], []⟩
            = Task.onDisk (listFolder c []) >>= fun names => pure (names, (⟨[], []⟩ : Found)) := rfl
        rw [hlift, runFrom_bind, runFrom_onDisk, hlist]
      rw [walk, runFrom_get_bind] at hrun
      obtain ⟨r, p₁, hvisit, -⟩ := runFrom_bind_eq_ok.1 hrun
      change runFrom ((visit (listing c) e (takeFile c) (2 * p.disk.height + 1 + 1) []).run
        ⟨[], []⟩) p = (.ok r, p₁) at hvisit
      rw [visit, StateT.run_bind, runFrom_bind, hlisting] at hvisit
      cases hvisit

/-- After wiping, the output folder is empty and the disk around it is as it was, also when it is
given by an absolute path. -/
theorem isWiped_of_stage (hdisk : d.WellFormed) (hrefusal : c.refusal? d.here = none)
    (hwipe : runFrom (wipeOutput c) d = (.ok (), W))
    (hroot : W.locate c.root = .ok (c.root.resolve d.here)) :
    IsWiped c (c.root.resolve d.here) (c.outputFolder.resolve d.here) d W := by
  obtain ⟨hinside, hne⟩ := inside_of_refusal?_eq_none hrefusal
  have hout := not_prefix_of_ne hinside hne
  by_cases hslashes : (Path.parse c.output).slashes = 0
  · have hpath : c.outputFolder = c.root.below (Path.parse c.output).segments := by
      rw [Config.outputFolder, Path.under, if_pos hslashes, Path.below]
    exact isWiped_of_run hdisk hpath hout hwipe
  · have habsolute : c.outputFolder.slashes ≠ 0 := by
      rwa [Config.outputFolder, Path.under, if_neg hslashes]
    exact isWiped_of_run_of_absolute hdisk habsolute
      (fun hnil => hout (hnil ▸ List.nil_prefix)) hwipe hroot

/-- Outside the output folder, the files after wiping are those before. -/
theorem IsWiped.file_iff {root out : List Text} (hW : IsWiped c root out d W) {q : List Text}
    (hq : ¬ out <+: q) {bytes : List UInt8} :
    W.get? q = some (.file bytes) ↔ d.get? q = some (.file bytes) := by
  rcases hW.grows.get? q fun hpre => absurd hpre hq with heq | ⟨hnone, hfolder⟩
  · rw [heq]
  · rw [hfolder, hnone]
    simp

/-- The pages that the walk over a wiped site comes to are the pages of the site. -/
theorem mem_walkFrom_iff {root out : List Text} (hW : IsWiped c root out d W)
    (hroot : W.get? root = some .folder) {e : Exclusion} :
    s ∈ (walkFrom (fun folder => W.names (root ++ folder)) e (2 * W.height + 2) []).filter isPage ↔
      isPage s = true ∧ (∃ bytes, d.get? (root ++ s) = some (.file bytes)) ∧ ¬ out <+: root ++ s ∧
        ∀ t, t ≠ [] → t <+: s → ¬ e.skips t = true := by
  rw [List.mem_filter, and_comm]
  refine and_congr_right fun hpage => ?_
  constructor
  · intro hmem
    obtain ⟨-, ⟨bytes, hfile⟩, hkept⟩ := isReached_of_mem_walkFrom hW.tree hmem
    -- Wiping has left nothing in the output folder to come to.
    have hout : ¬ out <+: root ++ s := by
      rintro ⟨t, ht⟩
      by_cases hnil : t = []
      · rw [← ht, hnil, List.append_nil, hW.folder] at hfile
        cases hfile
      · rw [← ht, hW.empty t hnil] at hfile
        cases hfile
    exact ⟨⟨bytes, (hW.file_iff hout).1 hfile⟩, hout, fun t ht hts =>
      hkept t hts fun hpre => ht (List.prefix_nil.1 hpre)⟩
  · rintro ⟨⟨bytes, hfile⟩, hout, hkept⟩
    have hfileW := (hW.file_iff hout).2 hfile
    have hreached : IsReached W root e [] s := ⟨List.nil_prefix, ⟨bytes, hfileW⟩,
      fun t hts htn => hkept t (fun hnil => htn (hnil ▸ List.nil_prefix)) hts⟩
    refine hreached.mem_walkFrom hW.tree ?_ ?_
    · rintro rfl
      rw [List.append_nil, hroot] at hfileW
      cases hfileW
    · -- No place on a disk is deeper than the walk goes.
      have hheight := length_le_height hfileW
      simp only [List.length_append, List.length_nil] at hheight ⊢
      omega

/-- A build that comes to its pages has wiped the output folder and found the pages of the site. -/
theorem exists_isStaged (hdisk : d.WellFormed) (hrefusal : c.refusal? d.here = none)
    (hd : p₁.disk = d) (hstage : runFrom (stage c) p₁ = (.ok found, p₂)) :
    ∃ W, IsStaged c d W found p₂ := by
  obtain ⟨_, pW, hwipeTask, hstage⟩ := runFrom_bind_eq_ok.1 hstage
  obtain ⟨names, pN, hnamesTask, hwalk⟩ := runFrom_bind_eq_ok.1 hstage
  obtain ⟨W, hwipe, rfl⟩ := exists_of_runFrom_onDisk hwipeTask
  obtain ⟨W', hnames, rfl⟩ := exists_of_runFrom_onDisk hnamesTask
  dsimp only at hnames
  obtain ⟨-, rfl⟩ : True ∧ W' = W := (keeps_readNames (· = W) c).of_ok rfl hnames
  rw [hd] at hwipe
  have hhere : W'.here = d.here := (keeps_wipeOutput.of_ok (hdisk.isFramed _) hwipe).2.here
  have hroot := locate_root_of_walk hwalk
  dsimp only at hroot
  rw [hhere] at hroot
  obtain ⟨hinside, hne⟩ := inside_of_refusal?_eq_none hrefusal
  have hW := isWiped_of_stage hdisk hrefusal hwipe hroot
  have hfolder : W'.get? (c.root.resolve d.here) = some .folder :=
    hW.tree.folder_of_prefix hinside (by rw [hW.folder]; simp) hne
  obtain ⟨-, he⟩ := of_runFrom_readNames hroot hfolder hnames
  obtain ⟨found', p', hrun, hwalked, hpages⟩ := exists_walk_isWalked hW hfolder
    ⟨names, Exclusion.foldersOf c⟩ p₁
  obtain ⟨hfound, rfl⟩ := Prod.mk.inj (hwalk.symm.trans hrun)
  obtain rfl := Except.ok.inj hfound
  refine ⟨W', hW, hwalked, fun s => ?_⟩
  rw [hpages, mem_walkFrom_iff hW hfolder, he, exclusionOf_eq hW hinside hne]
  exact ⟨fun ⟨h₁, h₂, h₃, h₄⟩ => ⟨h₁, h₂, h₃, h₄⟩, fun h => ⟨h.page, h.source, h.outside, h.kept⟩⟩

/-- **No page stops a build.** Once the settings and the fragments are in order, the output folder is
wiped and the root is found, a build comes to an end and returns, whatever the pages are. -/
theorem exists_workersBuild (hdisk : p.disk.WellFormed) (hrefusal : c.refusal? p.disk.here = none)
    (hstore : (runFrom (readFragments c) p).1 = .ok store)
    (hwipe : (runFrom (wipeOutput c) p.disk).1 = .ok ()) (names : List Text)
    (hnames : (runFrom (Exclusion.readNames c) (runFrom (wipeOutput c) p.disk).2).1 = .ok names)
    (hroot : (runFrom (wipeOutput c) p.disk).2.locate c.root
      = .ok (c.root.resolve p.disk.here)) (markdown : Text → Except Overlong Text)
    (markers : List Text → Markers) :
    ∃ report D, WorkersBuild markdown markers c p (.ok report) D := by
  obtain ⟨p₁, hload, hdisk₁⟩ := exists_runFrom_load hrefusal hstore
  generalize hW : (runFrom (wipeOutput c) p.disk).2 = W at hnames hroot
  have hwiped : runFrom (wipeOutput c) p.disk = (.ok (), W) := Prod.ext hwipe hW
  generalize hW' : (runFrom (Exclusion.readNames c) W).2 = W'
  have hread : runFrom (Exclusion.readNames c) W = (.ok names, W') := Prod.ext hnames hW'
  obtain ⟨-, rfl⟩ : True ∧ W' = W := (keeps_readNames (· = W) c).of_ok rfl hread
  obtain ⟨hinside, hne⟩ := inside_of_refusal?_eq_none hrefusal
  have hW := isWiped_of_stage hdisk hrefusal hwiped hroot
  have hfolder : W'.get? (c.root.resolve p.disk.here) = some .folder :=
    hW.tree.folder_of_prefix hinside (by rw [hW.folder]; simp) hne
  obtain ⟨found, p₂, hwalk, -⟩ := exists_walk_isWalked hW hfolder ⟨names, Exclusion.foldersOf c⟩ p₁
  have hstage : runFrom (stage c) p₁ = (.ok found, p₂) := by
    rw [← hdisk₁] at hwiped
    rw [stage, runFrom_bind_of_ok (runFrom_onDisk_of_ok hwiped),
      runFrom_bind_of_ok (runFrom_onDisk_of_ok hread), hwalk]
  obtain ⟨pool, hrun, hdone⟩ := Pool.exists_run_isDone (compilerOf markdown markers c store) c
    (.start found.pages found.copied p₂)
  exact ⟨_, _, .done hload hstage hrun hdone⟩

/-! ## What becomes of a page -/

/-- What becomes of a page: what stands for it in the output folder, whether it is reported as
built, and the message it is reported to have failed with. -/
structure Fate where
  file : Option Entry
  built : Bool
  failure : Option Text
  deriving DecidableEq, Repr

/-- What becomes of a page in a build that was begun in a folder. -/
def fateIn (c : Config) (here : List Text) (report : Report) (D : Disk) (s : List Text) : Fate :=
  ⟨D.get? (c.outputFolder.resolve here ++ s), report.pages.elem (pathText s),
    Table.get? report.failures (pathText s)⟩

/-- What becomes of a page that compiles to a text or fails. -/
def Fate.ofResult (result : Except Failure Text) : Fate :=
  ⟨result.toOption.map fun page => .file (written page), (reason? result).isNone, reason? result⟩

theorem IsSitePage.pathText_inj (hdisk : d.WellFormed) {t : List Text} (hs : IsSitePage c d s)
    (ht : IsSitePage c d t) (h : pathText s = pathText t) : s = t := by
  have hne : ∀ {s}, IsSitePage c d s → s ≠ [] := by
    rintro s hs rfl
    exact absurd hs.page (by decide)
  have hslash : ∀ {s}, IsSitePage c d s → ∀ name ∈ s, char '/' ∉ name := by
    intro s hs
    obtain ⟨bytes, hfile⟩ := hs.source
    exact hdisk.forall_mem_of_append hdisk.no_slash (by rw [hfile]; simp)
  exact join_inj (hne hs) (hne ht) (hslash hs) (hslash ht) h

namespace IsStaged

/-- A page of the site stands as it did before wiping. -/
theorem get?_source (h : IsStaged c d W found p) (hs : IsSitePage c d s) :
    p.disk.get? (c.root.resolve d.here ++ s) = d.get? (c.root.resolve d.here ++ s) := by
  obtain ⟨bytes, hfile⟩ := hs.source
  rw [h.walked.around _ fun hpre => absurd hpre hs.outside, hfile,
    (h.wiped.file_iff hs.outside).2 hfile]

theorem isPageAt (h : IsStaged c d W found p) :
    ∀ t ∈ found.pages, IsPageAt (c.root.resolve d.here) (c.outputFolder.resolve d.here) p.disk t := by
  intro t ht
  have hpage := (h.found_iff t).1 ht
  refine ⟨hpage.page, ?_, hpage.outside⟩
  rw [h.get?_source hpage]
  exact hpage.source

theorem published_eq (h : IsStaged c d W found p) (hs : IsSitePage c d s)
    (compiler : List Text → Compiler) :
    published compiler p.disk (c.root.resolve d.here) s
      = published compiler d (c.root.resolve d.here) s := by
  rw [published, published, bytesAt, bytesAt, h.get?_source hs]

end IsStaged

/-- What is known of a pool when all is done. -/
structure IsBuilt (compiler : List Text → Compiler) (c : Config) (d W : Disk) (found : Found)
    (p : Progress) (done entered : List (List Text)) (pool : Pool) : Prop
    extends IsStaged c d W found p where
  done_perm : done.Perm found.pages
  entered_perm : entered.Perm found.pages
  report : pool.report = Report.enterAll compiler p.disk (c.root.resolve d.here)
    ⟨[], found.copied, []⟩ entered
  disk : HasBuilt compiler c (c.root.resolve d.here) (c.outputFolder.resolve d.here) p.disk done
    pool.progress.disk

/-- A pool that has come to an end has built and entered the pages of the site. -/
theorem exists_isBuilt (hdisk : p.disk.WellFormed) (hload : runFrom (load c) p = (.ok store, p₁))
    (hstage : runFrom (stage c) p₁ = (.ok found, p₂)) {compiler : List Text → Compiler} {pool : Pool}
    (hrun : Pool.Run compiler c (.start found.pages found.copied p₂) pool) (hdone : pool.IsDone) :
    ∃ W done entered, IsBuilt compiler c p.disk W found p₂ done entered pool := by
  obtain ⟨hrefusal, -, hd⟩ := refusal?_of_load hload
  obtain ⟨W, hstaged⟩ := exists_isStaged hdisk hrefusal hd hstage
  obtain ⟨done, entered, h⟩ := hrun.hasRun hstaged.walked hstaged.isPageAt
  obtain ⟨hbuilt, hentered⟩ := h.of_isDone hdone
  exact ⟨W, done, entered, hstaged, hbuilt, hentered, h.report, h.built⟩

namespace IsBuilt

variable {compiler : List Text → Compiler} {done entered : List (List Text)} {pool : Pool}

theorem isSitePage (h : IsBuilt compiler c d W found p done entered pool) :
    ∀ t ∈ entered, IsSitePage c d t := fun t ht =>
  (h.found_iff t).1 (h.entered_perm.subset ht)

theorem pathText_inj (h : IsBuilt compiler c d W found p done entered pool)
    (hdisk : d.WellFormed) :
    ∀ s ∈ entered, ∀ t ∈ entered, pathText s = pathText t → s = t := fun s hs t ht =>
  (h.isSitePage s hs).pathText_inj hdisk (h.isSitePage t ht)

/-- What becomes of a page is said by the page as it was before the build. -/
theorem fateIn_eq (h : IsBuilt compiler c d W found p done entered pool) (hdisk : d.WellFormed)
    (hs : IsSitePage c d s) :
    fateIn c d.here { pool.report with pages := pool.report.pages.mergeSort fun a b => !(b < a) }
        pool.progress.disk s
      = .ofResult (published compiler d (c.root.resolve d.here) s) := by
  have hentered : s ∈ entered := h.entered_perm.symm.subset ((h.found_iff s).2 hs)
  have hfile := h.disk.get?_page h.walked
    (fun t ht => h.isPageAt t (h.done_perm.subset ht))
    (h.done_perm.symm.subset ((h.found_iff s).2 hs))
  -- A page is known by its path, so what is entered under the path is the outcome of the page.
  have hbuilt : (pool.report.pages.mergeSort fun a b => !(b < a)).elem (pathText s)
      = (reason? (published compiler d (c.root.resolve d.here) s)).isNone := by
    rw [h.report, pages_enterAll, List.nil_append, Bool.eq_iff_iff, List.elem_iff,
      List.mem_mergeSort, List.mem_filterMap, Option.isNone_iff_eq_none, ← h.published_eq hs]
    constructor
    · rintro ⟨t, ht, hpath⟩
      rw [builtPath?, Option.ite_none_right_eq_some] at hpath
      obtain rfl := h.pathText_inj hdisk t ht s hentered (Option.some.inj hpath.2)
      exact hpath.1
    · exact fun hnone => ⟨s, hentered, if_pos hnone⟩
  have hfailure : Table.get? pool.report.failures (pathText s)
      = reason? (published compiler d (c.root.resolve d.here) s) := by
    refine Option.ext fun message => ?_
    rw [h.report, failures_enterAll found.copied (h.pathText_inj hdisk), ← h.published_eq hs,
      ← verdict_eq_error_iff]
    constructor
    · rintro ⟨t, ht, hpath, hverdict⟩
      obtain rfl := h.pathText_inj hdisk t ht s hentered hpath
      exact hverdict
    · exact fun hverdict => ⟨s, hentered, rfl, hverdict⟩
  rw [fateIn, hfile, hbuilt, hfailure, pageBytes?, h.published_eq hs, Option.map_map]
  rfl

/-- Two runs of a pool over the same pages end with the same disk and with reports that say the
same. -/
theorem sameOutcome {done' entered' : List (List Text)} {pool' : Pool} {W' : Disk}
    (h : IsBuilt compiler c d W found p done entered pool)
    (h' : IsBuilt compiler c d W' found p done' entered' pool') (hdisk : d.WellFormed) :
    SameOutcome (.ok { pool.report with pages := pool.report.pages.mergeSort fun a b => !(b < a) })
        (.ok { pool'.report with pages := pool'.report.pages.mergeSort fun a b => !(b < a) }) ∧
      ∀ q, pool'.progress.disk.get? q = pool.progress.disk.get? q := by
  have hdone : ∀ s, s ∈ done ↔ s ∈ done' := fun s =>
    h.done_perm.mem_iff.trans h'.done_perm.mem_iff.symm
  have hperm : entered.Perm entered' := h.entered_perm.trans h'.entered_perm.symm
  refine ⟨⟨?_, ?_, fun path => ?_⟩, h.disk.get?_congr h'.disk hdone⟩
  · -- Both lists of pages are sorted, and they hold the same pages.
    have hpages : pool.report.pages.Perm pool'.report.pages := by
      rw [h.report, h'.report, pages_enterAll, pages_enterAll]
      exact (hperm.filterMap _).append_left []
    have hsorted := ((List.mergeSort_perm _ fun a b => !decide (b < a)).trans hpages).trans
      (List.mergeSort_perm _ fun a b => !decide (b < a)).symm
    exact hsorted.eq_of_pairwise (fun a b _ _ => le_antisymm) (pairwise_mergeSort_le id _)
      (pairwise_mergeSort_le id _)
  · show pool.report.copied = pool'.report.copied
    rw [h.report, h'.report, copied_enterAll, copied_enterAll]
  · refine Option.ext fun message => ?_
    show Table.get? pool.report.failures path = some message ↔
      Table.get? pool'.report.failures path = some message
    rw [h.report, h'.report, failures_enterAll found.copied (h.pathText_inj hdisk),
      failures_enterAll found.copied (h'.pathText_inj hdisk)]
    simp only [hperm.mem_iff]

end IsBuilt

/-! ## Independence -/

/-- Two sites agree in all that a page is made from: its text, the fragments, the settings that
compiling looks at, and its supply of markers. -/
structure SamePage (markers markers' : List Text → Markers) (c c' : Config) (p p' : Progress)
    (s : List Text) : Prop where
  source : p'.disk.get? (c'.root.resolve p'.disk.here ++ s)
    = p.disk.get? (c.root.resolve p.disk.here ++ s)
  store : (runFrom (readFragments c') p').1 = (runFrom (readFragments c) p).1
  activeClass : c'.activeClass = c.activeClass
  maxDepth : c'.maxDepth = c.maxDepth
  markers : markers' s = markers s

/-- Sites that agree in all that a page is made from publish the page in the same way. -/
theorem SamePage.published_eq {markers' : List Text → Markers} {c' : Config} {store' : Store}
    (h : SamePage markers markers' c c' p p' s)
    (hstore : (runFrom (readFragments c) p).1 = .ok store)
    (hstore' : (runFrom (readFragments c') p').1 = .ok store') :
    published (compilerOf markdown markers' c' store') p'.disk (c'.root.resolve p'.disk.here) s
      = published (compilerOf markdown markers c store) p.disk (c.root.resolve p.disk.here) s := by
  have hsame : store' = store := by
    have hread := h.store
    rw [hstore, hstore'] at hread
    exact Except.ok.inj hread
  rw [published, published, bytesAt, bytesAt, h.source, compilerOf, compilerOf, h.activeClass,
    h.maxDepth, h.markers, hsame]

/-- What becomes of a page of the site in a build that returns. -/
theorem WorkersBuild.exists_fateIn_eq (hdisk : p.disk.WellFormed) {report : Report} {D : Disk}
    (hbuild : WorkersBuild markdown markers c p (.ok report) D) :
    ∃ store, (runFrom (readFragments c) p).1 = .ok store ∧ ∀ s, IsSitePage c p.disk s →
      fateIn c p.disk.here report D s = .ofResult (published (compilerOf markdown markers c store)
        p.disk (c.root.resolve p.disk.here) s) := by
  cases hbuild with
  | done hload hstage hrun hdone =>
      obtain ⟨W, done, entered, h⟩ := exists_isBuilt hdisk hload hstage hrun hdone
      refine ⟨_, by rw [(refusal?_of_load hload).2.1], fun s hs => h.fateIn_eq hdisk hs⟩

/-- Two builds of one site end in the same way: they load and walk alike, and each builds the pages
that were found, in its own order. -/
theorem WorkersBuild.sameOutcome (hdisk : p.disk.WellFormed) {result result' : Except Stop Report}
    {D D' : Disk} (h : WorkersBuild markdown markers c p result D)
    (h' : WorkersBuild markdown markers c p result' D') :
    SameOutcome result result' ∧ ∀ q, D'.get? q = D.get? q := by
  -- Loading and walking leave no choice, so only builds that end in the same part are compared.
  cases h with
  | unloaded hload =>
      cases h' with
      | unloaded hload' =>
          obtain ⟨hstop, rfl⟩ := Prod.mk.inj (hload.symm.trans hload')
          exact ⟨Except.error.inj hstop, fun _ => rfl⟩
      | unstaged hload' => cases (Prod.mk.inj (hload.symm.trans hload')).1
      | done hload' => cases (Prod.mk.inj (hload.symm.trans hload')).1
  | unstaged hload hstage =>
      cases h' with
      | unloaded hload' => cases (Prod.mk.inj (hload.symm.trans hload')).1
      | unstaged hload' hstage' =>
          obtain ⟨-, rfl⟩ := Prod.mk.inj (hload.symm.trans hload')
          obtain ⟨hstop, rfl⟩ := Prod.mk.inj (hstage.symm.trans hstage')
          exact ⟨Except.error.inj hstop, fun _ => rfl⟩
      | done hload' hstage' =>
          obtain ⟨-, rfl⟩ := Prod.mk.inj (hload.symm.trans hload')
          cases (Prod.mk.inj (hstage.symm.trans hstage')).1
  | done hload hstage hrun hdone =>
      cases h' with
      | unloaded hload' => cases (Prod.mk.inj (hload.symm.trans hload')).1
      | unstaged hload' hstage' =>
          obtain ⟨-, rfl⟩ := Prod.mk.inj (hload.symm.trans hload')
          cases (Prod.mk.inj (hstage.symm.trans hstage')).1
      | done hload' hstage' hrun' hdone' =>
          obtain ⟨hstore, rfl⟩ := Prod.mk.inj (hload.symm.trans hload')
          obtain rfl := Except.ok.inj hstore
          obtain ⟨hfound, rfl⟩ := Prod.mk.inj (hstage.symm.trans hstage')
          obtain rfl := Except.ok.inj hfound
          obtain ⟨W, done, entered, hbuilt⟩ := exists_isBuilt hdisk hload hstage hrun hdone
          obtain ⟨W', done', entered', hbuilt'⟩ := exists_isBuilt hdisk hload hstage hrun' hdone'
          exact hbuilt.sameOutcome hbuilt' hdisk

/-- A page of the site is one of another site with the same root, the same source of the page and
the same ignore file. -/
theorem IsSitePage.of_source_eq {d' : Disk} (h : IsSitePage c d s) (hhere : d'.here = d.here)
    (hsource : d'.get? (c.root.resolve d.here ++ s) = d.get? (c.root.resolve d.here ++ s))
    (hignored : ignoredIn d' (c.root.resolve d.here) = ignoredIn d (c.root.resolve d.here)) :
    IsSitePage c d' s := by
  refine ⟨h.page, ?_, ?_, ?_⟩
  · rw [hhere, hsource]
    exact h.source
  · rw [hhere]
    exact h.outside
  · rw [hhere, exclusionOf, hignored]
    exact h.kept

/-- **Pages are independent of each other and of their scheduling.** Whatever order the workers
come upon, a build ends in the same way, with the same disk. What becomes of a page of the site is
the same in any two builds that agree in all that the page is made from, whatever else the sites
and the settings are; and a page stays one of the site when other files change, as long as the
ignore file says the same. -/
theorem pages_independent (hdisk : p.disk.WellFormed) {result : Except Stop Report} {D : Disk}
    (hbuild : WorkersBuild markdown markers c p result D) :
    (∀ result' D', WorkersBuild markdown markers c p result' D' →
      SameOutcome result result' ∧ ∀ q, D'.get? q = D.get? q) ∧
    (∀ report, result = .ok report → ∀ s, IsSitePage c p.disk s →
      ∀ (markers' : List Text → Markers) (c' : Config) (p' : Progress) (report' : Report) (D' : Disk),
        p'.disk.WellFormed → IsSitePage c' p'.disk s → SamePage markers markers' c c' p p' s →
        WorkersBuild markdown markers' c' p' (.ok report') D' →
        fateIn c' p'.disk.here report' D' s = fateIn c p.disk.here report D s) ∧
    ∀ (d' : Disk) (s : List Text), d'.here = p.disk.here →
      d'.get? (c.root.resolve p.disk.here ++ s) = p.disk.get? (c.root.resolve p.disk.here ++ s) →
      ignoredIn d' (c.root.resolve p.disk.here) = ignoredIn p.disk (c.root.resolve p.disk.here) →
      IsSitePage c p.disk s → IsSitePage c d' s := by
  refine ⟨fun result' D' hbuild' => hbuild.sameOutcome hdisk hbuild', ?_, ?_⟩
  · rintro report rfl s hs markers' c' p' report' D' hdisk' hs' hsame hbuild'
    obtain ⟨store, hstore, hfate⟩ := hbuild.exists_fateIn_eq hdisk
    obtain ⟨store', hstore', hfate'⟩ := hbuild'.exists_fateIn_eq hdisk'
    calc fateIn c' p'.disk.here report' D' s
        = .ofResult (published (compilerOf markdown markers' c' store') p'.disk
            (c'.root.resolve p'.disk.here) s) := hfate' s hs'
      _ = .ofResult (published (compilerOf markdown markers c store) p.disk
            (c.root.resolve p.disk.here) s) := by rw [hsame.published_eq hstore hstore']
      _ = fateIn c p.disk.here report D s := (hfate s hs).symm
  · intro d' s hhere hsource hignored hs
    exact hs.of_source_eq hhere hsource hignored

end

/-- The site of `oldBlog` with the page that cannot be compiled mended, and one page more. -/
def mendedBlog : Disk where
  here := placeOf "site"
  entries := [(placeOf "site", .folder), (placeOf "site/_imports", .folder),
    (placeOf "site/blog", .folder),
    (placeOf "site/blog/bad.html", .file (utf8 "mended".text)),
    (placeOf "site/blog/new.html", .file (utf8 "new".text)),
    (placeOf "site/index.html", .file (utf8 "Hi".text))]

/-- The settings of `flatConfig` for more workers, with an output folder that the walk enters. -/
def openConfig : Config := { flatConfig with output := "/site/public".text, workers := 4 }

theorem isSitePage_index {c : Config} {d : Disk} (hroot : c.root.resolve d.here = placeOf "site")
    (hout : c.outputFolder.resolve d.here = placeOf "site/public")
    (hfile : d.get? (placeOf "site/index.html") = some (.file (utf8 "Hi".text)))
    (hkept : ¬ (exclusionOf c d (placeOf "site")).skips (placeOf "index.html") = true) :
    IsSitePage c d (placeOf "index.html") := by
  refine ⟨by decide, ⟨utf8 "Hi".text, ?_⟩, ?_, fun t ht hpre => ?_⟩
  · rw [hroot]
    exact hfile
  · rw [hroot, hout]
    decide
  · rw [hroot]
    rcases List.prefix_cons_iff.1 hpre with rfl | ⟨t', rfl, ht'⟩
    · exact absurd rfl ht
    · rwa [List.prefix_nil.1 ht']

/-- The page of both sites is published alike, whatever becomes of the other pages. -/
theorem pages_independent_mendedBlog :
    ∃ report D report' D',
      WorkersBuild .ok (fun _ => decimal) flatConfig ⟨oldBlog, []⟩ (.ok report) D ∧
      WorkersBuild .ok (fun _ => decimal) openConfig ⟨mendedBlog, []⟩ (.ok report') D' ∧
      (∀ result E, WorkersBuild .ok (fun _ => decimal) flatConfig ⟨oldBlog, []⟩ result E →
        SameOutcome (.ok report) result) ∧
      fateIn openConfig mendedBlog.here report' D' (placeOf "index.html")
        = fateIn flatConfig oldBlog.here report D (placeOf "index.html") := by
  have hdisk : oldBlog.WellFormed := by decide +kernel
  have hdisk' : mendedBlog.WellFormed := by decide +kernel
  have hstore : (runFrom (readFragments flatConfig) ⟨oldBlog, []⟩).1
      = .ok (.new flatConfig.imports flatConfig.content) :=
    runFrom_readFragments_of_empty (placeOf "site/_imports") rfl (by decide +kernel)
      (by decide +kernel) (forall_mem_filesBelow.2 (by decide +kernel))
  have hstore' : (runFrom (readFragments openConfig) ⟨mendedBlog, []⟩).1
      = .ok (.new openConfig.imports openConfig.content) :=
    runFrom_readFragments_of_empty (placeOf "site/_imports") rfl (by decide +kernel)
      (by decide +kernel) (forall_mem_filesBelow.2 (by decide +kernel))
  obtain ⟨report, D, hbuild⟩ := exists_workersBuild (c := flatConfig) hdisk
    (by decide +kernel) hstore (by decide +kernel) Exclusion.defaultNames
    (by decide +kernel) (by decide +kernel) .ok fun _ => decimal
  obtain ⟨report', D', hbuild'⟩ := exists_workersBuild (c := openConfig) hdisk'
    (by decide +kernel) hstore' (by decide +kernel) Exclusion.defaultNames
    (by decide +kernel) (by decide +kernel) .ok fun _ => decimal
  obtain ⟨hscheduling, hpages, -⟩ := pages_independent hdisk hbuild
  refine ⟨report, D, report', D', hbuild, hbuild', fun result E h => (hscheduling result E h).1, ?_⟩
  refine hpages report rfl (placeOf "index.html") ?_ (fun _ => decimal) openConfig ⟨mendedBlog, []⟩
    report' D' hdisk' ?_ ⟨?_, hstore'.trans hstore.symm, rfl, rfl, rfl⟩ hbuild'
  · exact isSitePage_index (by decide +kernel) (by decide +kernel) (by decide +kernel)
      (by decide +kernel)
  · exact isSitePage_index (by decide +kernel) (by decide +kernel) (by decide +kernel)
      (by decide +kernel)
  · decide +kernel

end Stencil.Site
