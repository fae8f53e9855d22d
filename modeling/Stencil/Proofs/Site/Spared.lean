import Stencil.Proofs.Site.Build
import Stencil.Proofs.Site.Listing
import Stencil.Proofs.Site.Pool

set_option autoImplicit false

/-! # The output folder is left out of the walk

A build accepts every output folder that lies inside the root, however it is spelled, but the walk
knows the folders it leaves out by their spelling. The two agree when the output is given relative
to the root and its normal form does not begin with `..`: then that normal form is the way from
the root to the folder, so the walk stops there, and a build neither copies nor compiles what it
wrote (`walk_spares_output`). An absolute output, or one that climbs out of the root and comes
back, is walked (`walk_enters_output`).
-/

namespace Stencil.Site

open Text Disk Action

/-- The files a report speaks of, by their paths. -/
def Report.paths (report : Report) : List Text :=
  report.copied ++ report.pages ++ Table.names report.failures

section

variable {c : Config} {d W : Disk} {root out s : List Text} {e : Exclusion} {p p' : Progress}
  {report : Report} {compiler : List Text → Compiler} {pages : List (List Text)}

/-! ## The walk -/

/-- The way from the root to the output folder is the normal form of its spelling. -/
theorem outputFolder_resolve (hrelative : Path.rootSlashes c.output = 0)
    (hbelow : (Path.normalSegments c.output).head? ≠ some "..".text) (here : List Text) :
    c.outputFolder.resolve here = c.root.resolve here ++ Path.normalSegments c.output :=
  Path.resolve_under hrelative hbelow c.root here

/-- An output folder that is not the root has a way from the root. -/
theorem normalSegments_output_ne_nil (hrelative : Path.rootSlashes c.output = 0)
    (hbelow : (Path.normalSegments c.output).head? ≠ some "..".text) {here : List Text}
    (hrefusal : c.refusal? here = none) : Path.normalSegments c.output ≠ [] := by
  intro hnil
  have hout := outputFolder_resolve hrelative hbelow here
  rw [hnil, List.append_nil] at hout
  rw [Config.refusal?, Config.isInside, hout] at hrefusal
  simp at hrefusal

/-- A walk that leaves out a folder comes to no file in it. -/
theorem not_prefix_of_mem_files (h : d.IsTree) (hne : s ≠ []) (hskip : e.skips s = true)
    {t : List Text} (ht : t ∈ files d root e) : ¬ root ++ s <+: root ++ t := by
  intro hpre
  rw [files_eq_walkFrom] at ht
  have hway : s <+: t := (List.prefix_append_right_inj root).1 hpre
  have hnil : ¬ s <+: [] := fun hnil => hne (List.prefix_nil.1 hnil)
  exact (isReached_of_mem_walkFrom h ht).kept s hway hnil hskip

/-! ## The report -/

theorem mem_paths_enter (report : Report) (s : List Text) (outcome : Except Text Unit)
    {path : Text} (h : path ∈ (report.enter s outcome).paths) :
    path ∈ report.paths ∨ path = pathText s := by
  cases outcome with
  | ok _ =>
      simp only [Report.enter, Report.paths, List.mem_append, List.mem_singleton] at h ⊢
      tauto
  | error message =>
      simp only [Report.enter, Report.paths, List.mem_append, Table.mem_names_set] at h ⊢
      tauto

/-- A report speaks of what it spoke of before, and of the pages that were built. -/
theorem mem_paths_makePages (pages : List (List Text)) (report : Report) (p : Progress)
    {path : Text}
    (h : path ∈ (Id.run ((makePages compiler c report pages).run p)).1.paths) :
    path ∈ report.paths ∨ ∃ s ∈ pages, path = pathText s := by
  induction pages generalizing report p with
  | nil => exact .inl h
  | cons s pages ih =>
      rw [makePages, List.foldlM_cons, run_bind_of_eq (run_takePage compiler c report s p)] at h
      rcases ih _ _ h with h | ⟨t, ht, hpath⟩
      · rcases mem_paths_enter _ _ _ h with h | rfl
        · exact .inl h
        · exact .inr ⟨s, List.mem_cons_self, rfl⟩
      · exact .inr ⟨t, List.mem_cons_of_mem _ ht, hpath⟩

/-- A build speaks of files of its site only. -/
theorem mem_siteFiles_of_mem_paths {markdown : Text → Except Overlong Text}
    {markers : List Text → Markers}
    {schedule : List (List Text) → List (List Text)} (hdisk : p.disk.WellFormed)
    (hrelative : Path.rootSlashes c.output = 0)
    (hbelow : (Path.normalSegments c.output).head? ≠ some "..".text)
    (hschedule : ∀ pages, (schedule pages).Perm pages)
    (hrun : runFrom (build markdown markers schedule c) p = (.ok report, p')) {path : Text}
    (hpath : path ∈ report.paths) : ∃ s ∈ siteFiles c p.disk, path = pathText s := by
  obtain ⟨hrefusal, store, p₁, W, names, W₁, found, p₂, -, hwipe, hnames, hwalk, built, p₃,
    hbuilt, rfl, -⟩ := stages_of_build hrun
  obtain ⟨rfl, hsettled⟩ := isSettled_of_run hdisk hrelative hbelow hrefusal hwipe hnames
  obtain ⟨found', p₂', hwalk', htaken⟩ := hsettled.exists_walk
    (fun s => ⟨store, c.activeClass, markdown, c.maxDepth, markers s⟩) p₁
  rw [hwalk] at hwalk'
  obtain ⟨hfound, rfl⟩ := Prod.mk.inj hwalk'
  obtain rfl := Except.ok.inj hfound
  have hpaths : path ∈ built.paths := by
    simpa only [Report.paths, List.mem_append, List.mem_mergeSort] using hpath
  obtain rfl : (Id.run ((makePages _ c ⟨[], found.copied, []⟩ (schedule found.pages)).run p₂)).1
    = built := congrArg Prod.fst hbuilt
  rcases mem_paths_makePages _ _ _ hpaths with hcopied | ⟨s, hs, rfl⟩
  · -- Before the pages, the report has what the walk copied.
    have hcopied' : path ∈ found.copied := by
      simpa [Report.paths, Table.names] using hcopied
    rw [htaken.copied] at hcopied'
    obtain ⟨s, hs, rfl⟩ := List.mem_map.1 hcopied'
    exact ⟨s, (List.mem_filter.1 hs).1, rfl⟩
  · have hpage := (hschedule found.pages).mem_iff.1 hs
    rw [htaken.pages] at hpage
    exact ⟨s, (List.mem_filter.1 hpage).1, rfl⟩

/-- **The output folder is never walked** when it is spelled from the root downwards. No file of
the site lies in it, whatever stands on the disk, and no build copies or compiles one that does:
every file that its report speaks of lies elsewhere. -/
theorem walk_spares_output (hdisk : p.disk.WellFormed) (hrelative : Path.rootSlashes c.output = 0)
    (hbelow : (Path.normalSegments c.output).head? ≠ some "..".text)
    (hrefusal : c.refusal? p.disk.here = none) :
    (∀ s ∈ siteFiles c p.disk,
      ¬ c.outputFolder.resolve p.disk.here <+: c.root.resolve p.disk.here ++ s) ∧
    ∀ (markdown : Text → Except Overlong Text) (markers : List Text → Markers)
      (schedule : List (List Text) → List (List Text)), (∀ pages, (schedule pages).Perm pages) →
      ∀ report p', runFrom (build markdown markers schedule c) p = (.ok report, p') →
        ∀ path ∈ report.paths, ∃ s, path = pathText s ∧
          ¬ c.outputFolder.resolve p.disk.here <+: c.root.resolve p.disk.here ++ s := by
  have hsite : ∀ s ∈ siteFiles c p.disk,
      ¬ c.outputFolder.resolve p.disk.here <+: c.root.resolve p.disk.here ++ s := by
    intro s hs
    have hne := normalSegments_output_ne_nil hrelative hbelow hrefusal
    rw [outputFolder_resolve hrelative hbelow]
    exact not_prefix_of_mem_files hdisk.toIsTree hne (skips_output hrelative hne _) hs
  refine ⟨hsite, fun markdown markers schedule hschedule report p' hrun path hpath => ?_⟩
  obtain ⟨s, hs, rfl⟩ := mem_siteFiles_of_mem_paths hdisk hrelative hbelow hschedule hrun hpath
  exact ⟨s, rfl, hsite s hs⟩

end

/-! ## Spellings of one folder -/

/-- Settings with an absolute root, and an output folder spelled in some way. -/
def spelledConfig (output : String) : Config :=
  { flatConfig with root := Path.parse "/site".text, output := output.text }

/-- The output folder spelled with a detour below the root. -/
def dottedConfig : Config := spelledConfig "./blog/../public/"

theorem walk_spares_output_dotted :
    oldBlog.WellFormed ∧ dottedConfig.refusal? oldBlog.here = none ∧
      oldBlog.get? (placeOf "site/public/old.html") = some (.file (utf8 "old".text)) ∧
      placeOf "public/old.html" ∉ siteFiles dottedConfig oldBlog ∧
      ∃ report p', runFrom (build .ok (fun _ => decimal) id dottedConfig)
          ⟨oldBlog, []⟩ = (.ok report, p') ∧
        ∀ path ∈ report.paths, ∃ s, path = pathText s ∧
          ¬ placeOf "site/public" <+: placeOf "site" ++ s := by
  have hdisk : oldBlog.WellFormed := by decide +kernel
  have hrelative : Path.rootSlashes dottedConfig.output = 0 := by
    decide +kernel
  have hbelow : (Path.normalSegments dottedConfig.output).head?
      ≠ some "..".text := by decide +kernel
  have hrefusal : dottedConfig.refusal? oldBlog.here = none := by
    decide +kernel
  have hroot : dottedConfig.root.resolve oldBlog.here = placeOf "site" := by
    decide +kernel
  have hout : dottedConfig.outputFolder.resolve oldBlog.here
      = placeOf "site/public" := by decide +kernel
  have hstore : (runFrom (readFragments dottedConfig) ⟨oldBlog, []⟩).1
      = .ok (.new dottedConfig.imports dottedConfig.content) :=
    runFrom_readFragments_of_empty (placeOf "site/_imports") rfl (by decide +kernel)
      (by decide +kernel) (forall_mem_filesBelow.2 (by decide +kernel))
  have hwipe : (runFrom (wipeOutput dottedConfig) oldBlog).1 = .ok () := by
    decide +kernel
  have hnames : (runFrom (Exclusion.readNames dottedConfig)
      (runFrom (wipeOutput dottedConfig) oldBlog).2).1
      = .ok Exclusion.defaultNames := by decide +kernel
  obtain ⟨hsite, hbuild⟩ := walk_spares_output (p := ⟨oldBlog, []⟩) hdisk hrelative hbelow hrefusal
  rw [hroot, hout] at hsite hbuild
  obtain ⟨report, p', hrun⟩ : ∃ report p',
      runFrom (build .ok (fun _ => decimal) id dottedConfig) ⟨oldBlog, []⟩
        = (.ok report, p') :=
    build_returns hdisk hrelative hbelow hrefusal (Prod.fst_eq_iff.1 hstore)
      (Prod.fst_eq_iff.1 hwipe) (Prod.fst_eq_iff.1 hnames)
  refine ⟨hdisk, hrefusal, by decide +kernel, fun hmem => hsite _ hmem (by decide +kernel), report,
    p', hrun, ?_⟩
  exact hbuild .ok (fun _ => decimal) id (fun pages => .refl pages) report p' hrun

theorem mem_siteFiles_spelledConfig {output : String}
    (hkept : (exclusionOf (spelledConfig output) oldBlog (placeOf "site")).Keeps
      (placeOf "public/old.html")) :
    placeOf "public/old.html" ∈ siteFiles (spelledConfig output) oldBlog := by
  have hdisk : oldBlog.WellFormed := by decide +kernel
  have hroot : (Path.parse "/site".text).resolve oldBlog.here = placeOf "site" := by
    decide +kernel
  have hfile : oldBlog.get? (placeOf "site" ++ placeOf "public/old.html")
      = some (.file (utf8 "old".text)) := by decide +kernel
  show placeOf "public/old.html" ∈ files oldBlog ((Path.parse "/site".text).resolve oldBlog.here)
    (exclusionOf (spelledConfig output) oldBlog ((Path.parse "/site".text).resolve oldBlog.here))
  rw [hroot]
  exact (mem_files_iff hdisk.toIsTree (by decide +kernel)).2 ⟨⟨_, hfile⟩, hkept⟩

/-- **An output folder that is spelled from outside the root is walked,** although a build accepts
it: one that climbs out of the root and comes back, or is given by an absolute path. -/
theorem walk_enters_output :
    ((spelledConfig "../site/public").refusal? oldBlog.here = none ∧
      (spelledConfig "../site/public").outputFolder.resolve oldBlog.here = placeOf "site/public" ∧
      placeOf "public/old.html" ∈ siteFiles (spelledConfig "../site/public") oldBlog) ∧
    (spelledConfig "/site/public").refusal? oldBlog.here = none ∧
      (spelledConfig "/site/public").outputFolder.resolve oldBlog.here = placeOf "site/public" ∧
      placeOf "public/old.html" ∈ siteFiles (spelledConfig "/site/public") oldBlog := by
  refine ⟨⟨by decide +kernel, by decide +kernel, ?_⟩, by decide +kernel, by decide +kernel, ?_⟩
  · exact mem_siteFiles_spelledConfig (by decide +kernel)
  · exact mem_siteFiles_spelledConfig (by decide +kernel)

end Stencil.Site
