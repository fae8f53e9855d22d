import Stencil.Proofs.Site.Listing
import Stencil.Proofs.Site.Load
import Stencil.Proofs.Site.Pages

set_option autoImplicit false

/-! # A build writes the site

What a build leaves in the output folder, and what it reports, is said by the site as it was
before (`WritesSite`): the files of the site that are no pages, the pages that can be compiled, and
nothing else, whatever stood in the output folder. A build that returns does this
(`build_writes_site`), in whichever order the pages are done. A page that is compiled into a text
with a surrogate fails nevertheless, and its file stays empty (`build_leaves_file_of_failed_page`).
-/

namespace Stencil.Site

open Text Disk Action

/-! ## The site a build is about -/

/-- The names in the ignore file of a site, as the disk has it. -/
def ignoredIn (d : Disk) (root : List Text) : List Text :=
  match d.get? (root ++ [".gitignore".text]) with
  | some (.file bytes) => Exclusion.ignoredNames (Exclusion.textOf bytes)
  | _ => []

/-- What a build leaves out of its site. -/
def exclusionOf (c : Config) (d : Disk) (root : List Text) : Exclusion :=
  ⟨Exclusion.distinct (Exclusion.defaultNames ++ c.exclude ++ ignoredIn d root),
    Exclusion.foldersOf c⟩

/-- The files of the site a build is about, by their segments below the root. -/
def siteFiles (c : Config) (d : Disk) : List (List Text) :=
  files d (c.root.resolve d.here) (exclusionOf c d (c.root.resolve d.here))

section

variable {c : Config} {d W : Disk} {p p' : Progress} {store : Store} {report : Report}
  {root out s : List Text} {e : Exclusion}
  {markdown : Text → Except Overlong Text} {markers : List Text → Markers}
  {schedule : List (List Text) → List (List Text)}

/-! ## Reading before and after wiping -/

/-- After wiping, the names that are left out are read as they stand on the disk. -/
theorem of_runFrom_readNames {names : List Text} {W' : Disk} (hroot : W.locate c.root = .ok root)
    (hfolder : W.get? root = some .folder)
    (hrun : runFrom (Exclusion.readNames c) W = (.ok names, W')) :
    W' = W ∧ ⟨names, Exclusion.foldersOf c⟩ = exclusionOf c W root := by
  have hplace : W.locate (c.root.below [".gitignore".text])
      = .ok (root ++ [".gitignore".text]) := by
    refine locate_below_names hroot (by decide) fun t ht hne => ?_
    rcases List.prefix_cons_iff.1 ht with rfl | ⟨t', rfl, ht'⟩
    · rw [List.append_nil, hfolder]
    · rw [List.prefix_nil.1 ht'] at hne
      exact absurd rfl hne
  obtain ⟨ignored, W₁, hignored, hnames⟩ := runFrom_bind_eq_ok.1 hrun
  cases hnames
  rw [Exclusion.readIgnored, runFrom_get_bind] at hignored
  have hhas : W.has (c.root.below [".gitignore".text])
      = (W.get? (root ++ [".gitignore".text])).isSome := by
    rw [has, at?, hplace]
  by_cases hsome : (W.get? (root ++ [".gitignore".text])).isSome = true
  · rw [if_pos (hhas.trans hsome)] at hignored
    obtain ⟨bytes, W₂, hread, hignored⟩ := runFrom_bind_eq_ok.1 hignored
    cases hignored
    obtain ⟨hfile, rfl⟩ := of_runFrom_readFile hplace hread
    refine ⟨rfl, ?_⟩
    rw [exclusionOf, ignoredIn, hfile]
  · rw [if_neg (by rwa [hhas])] at hignored
    cases hignored
    refine ⟨rfl, ?_⟩
    have hnone : W.get? (root ++ [".gitignore".text]) = none := by simpa using hsome
    rw [exclusionOf, ignoredIn, hnone]

/-! ## What the run consists of -/

theorem runFrom_report (event : Event) (p : Progress) :
    runFrom (Task.report event) p = (.ok (), p.report event) := rfl

theorem runFrom_liftM {α : Type} (x : StateM Progress α) (p : Progress) :
    runFrom (liftM x : Task α) p = (.ok (Id.run (x.run p)).1, (Id.run (x.run p)).2) := rfl

theorem eq_of_runFrom_liftM {α : Type} {x : StateM Progress α} {a : α}
    (h : runFrom (liftM x : Task α) p = (.ok a, p')) : Id.run (x.run p) = (a, p') := by
  rw [runFrom_liftM] at h
  obtain ⟨ha, hp⟩ := Prod.mk.inj h
  exact Prod.ext (Except.ok.inj ha) hp

/-- A build that returns has gone through its stages. -/
theorem stages_of_build
    (hrun : runFrom (build markdown markers schedule c) p = (.ok report, p')) :
    c.refusal? p.disk.here = none ∧
    ∃ store p₁ W names W₁ found p₂,
      runFrom (readFragments c) p = (.ok store, p₁) ∧
      runFrom (wipeOutput c) p.disk = (.ok (), W) ∧
      runFrom (Exclusion.readNames c) W = (.ok names, W₁) ∧
      runFrom (walk c ⟨names, Exclusion.foldersOf c⟩) { p₁ with disk := W₁ } = (.ok found, p₂) ∧
      ∃ built p₃,
        Id.run ((makePages (fun s => ⟨store, c.activeClass, markdown, c.maxDepth, markers s⟩) c
          ⟨[], found.copied, []⟩ (schedule found.pages)).run p₂) = (built, p₃) ∧
        report = { built with pages := built.pages.mergeSort fun a b => !(b < a) } ∧
        p'.disk = p₃.disk := by
  rw [build, runFrom_get_bind] at hrun
  dsimp only at hrun
  split at hrun
  · cases hrun
  · rename_i hrefusal
    obtain ⟨store, p₁, hstore, hrun⟩ := runFrom_bind_eq_ok.1 hrun
    obtain ⟨_, pW, hwipeTask, hrun⟩ := runFrom_bind_eq_ok.1 hrun
    obtain ⟨names, pN, hnamesTask, hrun⟩ := runFrom_bind_eq_ok.1 hrun
    obtain ⟨found, p₂, hwalk, hrun⟩ := runFrom_bind_eq_ok.1 hrun
    obtain ⟨built, p₃, hpages, hrun⟩ := runFrom_bind_eq_ok.1 hrun
    obtain ⟨_, p₄, hreport, hrun⟩ := runFrom_bind_eq_ok.1 hrun
    -- What is left after the pages only reports.
    have hlast : report = { built with pages := built.pages.mergeSort fun a b => !(b < a) } ∧
        p'.disk = p₃.disk := by
      rw [runFrom_report] at hreport
      obtain rfl := (Prod.mk.inj hreport).2
      split at hrun
      · obtain ⟨_, p₅, hfailures, hrun⟩ := runFrom_bind_eq_ok.1 hrun
        rw [runFrom_report] at hfailures
        obtain rfl := (Prod.mk.inj hfailures).2
        rw [runFrom_pure] at hrun
        obtain ⟨hreport, rfl⟩ := Prod.mk.inj hrun
        exact ⟨(Except.ok.inj hreport).symm, rfl⟩
      · rw [runFrom_pure] at hrun
        obtain ⟨hreport, rfl⟩ := Prod.mk.inj hrun
        exact ⟨(Except.ok.inj hreport).symm, rfl⟩
    obtain ⟨W, hwipe, rfl⟩ := exists_of_runFrom_onDisk hwipeTask
    obtain ⟨W₁, hnames, rfl⟩ := exists_of_runFrom_onDisk hnamesTask
    have hdisk : p₁.disk = p.disk := by
      have hkeep := (keeps_readFragments c p.disk).invariant rfl
      rwa [hstore] at hkeep
    rw [hdisk] at hwipe
    have hrefused : c.refusal? p.disk.here = none := by
      cases hc : c.refusal? p.disk.here with
      | none => rfl
      | some refusal => exact absurd hc (hrefusal refusal)
    exact ⟨hrefused, store, p₁, W, names, W₁, found, p₂, hstore, hwipe, hnames, hwalk, built, p₃,
      eq_of_runFrom_liftM hpages, hlast⟩

/-- Once its walk returns, a build returns: a page that fails stops nothing. -/
theorem runFrom_build_of_walk {names : List Text} {found : Found} {p₁ p₂ : Progress} {W₁ : Disk}
    (hrefusal : c.refusal? p.disk.here = none)
    (hstore : runFrom (readFragments c) p = (.ok store, p₁))
    (hwipe : runFrom (wipeOutput c) p₁.disk = (.ok (), W))
    (hnames : runFrom (Exclusion.readNames c) W = (.ok names, W₁))
    (hwalk : runFrom (walk c ⟨names, Exclusion.foldersOf c⟩) { p₁ with disk := W₁ }
      = (.ok found, p₂)) :
    ∃ report p', runFrom (build markdown markers schedule c) p = (.ok report, p') := by
  rw [build, runFrom_get_bind]
  simp only [hrefusal]
  rw [runFrom_bind_of_ok hstore, runFrom_bind_of_ok (runFrom_onDisk_of_ok hwipe),
    runFrom_bind_of_ok (runFrom_onDisk_of_ok hnames), runFrom_bind_of_ok hwalk,
    runFrom_bind_of_ok (runFrom_liftM _ _), runFrom_bind_of_ok (runFrom_report _ _)]
  split
  · rw [runFrom_bind_of_ok (runFrom_report _ _)]
    exact ⟨_, _, runFrom_pure _ _⟩
  · exact ⟨_, _, runFrom_pure _ _⟩

/-! ## The files of the site -/

theorem mem_distinct {items : List Text} {item : Text} (h : item ∈ items) :
    item ∈ Exclusion.distinct items := by
  have key : ∀ (items kept : List Text), item ∈ kept ∨ item ∈ items → item ∈ items.foldl
      (fun kept item => if kept.elem item then kept else kept ++ [item]) kept := by
    intro items
    induction items with
    | nil => exact fun kept h => h.resolve_right (by simp)
    | cons next items ih =>
        intro kept h
        refine ih _ ?_
        have hkept : item ∈ kept → item ∈ if kept.elem next then kept else kept ++ [next] := by
          intro hmem
          split
          · exact hmem
          · exact List.mem_append_left _ hmem
        rcases h with h | h
        · exact .inl (hkept h)
        · rcases List.mem_cons.1 h with rfl | h
          · left
            show item ∈ if kept.elem item then kept else kept ++ [item]
            split
            · rename_i helem
              exact List.elem_iff.1 helem
            · exact List.mem_append_right _ (List.mem_singleton_self _)
          · exact .inr h
  exact key items [] (.inr h)

/-- The output folder is left out of the walk. -/
theorem skips_output (hrelative : Path.rootSlashes c.output = 0)
    (hne : Path.normalSegments c.output ≠ []) (names : List Text) :
    Exclusion.skips ⟨names, Exclusion.foldersOf c⟩ (Path.normalSegments c.output) = true := by
  have hsegments : ∀ segment ∈ Path.normalSegments c.output, Path.IsSegment segment :=
    fun _ h => Path.isSegment_of_mem_normalSegments h
  have hdot : join ['/'] (Path.normalSegments c.output) ≠ [char '.'] := by
    intro heq
    have hsplit := splitOn_join hne fun segment h => (hsegments segment h).2.2
    rw [heq] at hsplit
    have hmem : [char '.'] ∈ Path.normalSegments c.output := by
      rw [← hsplit]
      decide
    exact (hsegments _ hmem).2.1 rfl
  have hmem : join ['/'] (Path.normalSegments c.output) ∈ Exclusion.foldersOf c := by
    refine mem_distinct (List.mem_filter.2 ⟨?_, by simpa using hdot⟩)
    rw [← Path.normalize_text_parse hrelative hne]
    simp
  rw [Exclusion.skips, Bool.or_eq_true]
  exact .inr (List.elem_iff.2 hmem)

/-- A file of the site is found on the disk before and after wiping, outside the output folder. -/
structure IsSiteFile (root out : List Text) (d W : Disk) (s : List Text) : Prop where
  source : ∃ bytes, W.get? (root ++ s) = some (.file bytes)
  same : W.get? (root ++ s) = d.get? (root ++ s)
  outside : ¬ out <+: root ++ s

/-- Files of the site have different paths. -/
theorem pathText_inj (hd : d.WellFormed) (hroot : W.get? root = some .folder) {t : List Text}
    (hs : IsSiteFile root out d W s) (ht : IsSiteFile root out d W t)
    (h : pathText s = pathText t) : s = t := by
  have hne : ∀ {s}, IsSiteFile root out d W s → s ≠ [] := by
    rintro s hs rfl
    obtain ⟨bytes, hfile⟩ := hs.source
    rw [List.append_nil, hroot] at hfile
    cases hfile
  have hslash : ∀ {s}, IsSiteFile root out d W s → ∀ name ∈ s, char '/' ∉ name := by
    intro s hs
    obtain ⟨bytes, hfile⟩ := hs.source
    rw [hs.same] at hfile
    exact hd.forall_mem_of_append hd.no_slash (by rw [hfile]; simp)
  exact join_inj (hne hs) (hne ht) (hslash hs) (hslash ht) h

theorem exclusionOf_eq (hW : IsWiped c root out d W) (hroot : root <+: out) (hne : root ≠ out) :
    exclusionOf c W root = exclusionOf c d root := by
  have hignored : ignoredIn W root = ignoredIn d root := by
    -- The output folder may have that name itself, but neither disk has a file there then.
    rcases hW.grows.get? _ (eq_of_prefix_concat (not_prefix_of_ne hroot hne)) with heq | ⟨hnone, hfolder⟩
    · rw [ignoredIn, ignoredIn, heq]
    · rw [ignoredIn, ignoredIn, hnone, hfolder]
  rw [exclusionOf, exclusionOf, hignored]

theorem published_eq (compiler : List Text → Compiler) (h : IsSiteFile root out d W s) :
    published compiler W root s = published compiler d root s := by
  rw [published, published, bytesAt, bytesAt, h.same]

/-- After wiping, all is settled: what the walk leaves out, the output folder among it, and which
files it comes to. -/
structure IsSettled (c : Config) (root out : List Text) (d W : Disk) (e : Exclusion) : Prop where
  wiped : IsWiped c root out d W
  below : root <+: out
  ne : root ≠ out
  root_folder : W.get? root = some .folder
  skips : ∀ t, root ++ t = out → e.skips t = true
  files : siteFiles c d
    = walkFrom (fun folder => W.names (root ++ folder)) e (2 * W.height + 2) []

theorem isSettled_of_run {names : List Text} {W₁ : Disk} (hdisk : d.WellFormed)
    (hrelative : Path.rootSlashes c.output = 0)
    (hbelow : (Path.normalSegments c.output).head? ≠ some "..".text)
    (hrefusal : c.refusal? d.here = none) (hwipe : runFrom (wipeOutput c) d = (.ok (), W))
    (hnames : runFrom (Exclusion.readNames c) W = (.ok names, W₁)) :
    W₁ = W ∧ IsSettled c (c.root.resolve d.here) (c.outputFolder.resolve d.here) d W
      ⟨names, Exclusion.foldersOf c⟩ := by
  set root := c.root.resolve d.here with hroot_def
  set out := c.outputFolder.resolve d.here with hout_def
  have hout : out = root ++ Path.normalSegments c.output :=
    Path.resolve_under hrelative hbelow c.root d.here
  have hroot : root <+: out := hout ▸ List.prefix_append _ _
  have hne : root ≠ out := by
    intro heq
    rw [Config.refusal?, Config.isInside, ← hroot_def, ← hout_def, heq] at hrefusal
    simp at hrefusal
  have houtside : ¬ out <+: root := not_prefix_of_ne hroot hne
  have hsegments : Path.normalSegments c.output ≠ [] := by
    intro hnil
    rw [hnil, List.append_nil] at hout
    exact hne hout.symm
  have hslashes : (Path.parse c.output).slashes = 0 := hrelative
  have hpath : c.outputFolder = c.root.below (Path.parse c.output).segments := by
    rw [Config.outputFolder, Path.under, if_pos hslashes, Path.below]
  have hW : IsWiped c root out d W := isWiped_of_run hdisk hpath houtside hwipe
  have hfolder : W.get? root = some .folder :=
    hW.tree.folder_of_prefix hroot (by rw [hW.folder]; simp) hne
  obtain ⟨hW₁, he⟩ := of_runFrom_readNames hW.root_at hfolder hnames
  have hskip : ∀ t, root ++ t = out → Exclusion.skips ⟨names, Exclusion.foldersOf c⟩ t = true := by
    intro t ht
    rw [hout] at ht
    rw [List.append_cancel_left ht]
    exact skips_output hrelative hsegments names
  refine ⟨hW₁, hW, hroot, hne, hfolder, hskip, ?_⟩
  rw [siteFiles, ← hroot_def, ← exclusionOf_eq hW hroot hne, ← he]
  exact files_eq_of_growsAround hdisk.toIsTree hW.tree hW.grows hskip houtside (by omega)

namespace IsSettled

theorem nodup (h : IsSettled c root out d W e) : (siteFiles c d).Nodup := by
  rw [h.files]
  exact nodup_walkFrom h.wiped.tree

/-- The walk over a settled site finds its pages and copies its other files. -/
theorem exists_walk (h : IsSettled c root out d W e) (compiler : List Text → Compiler)
    (p : Progress) :
    ∃ found p', runFrom (walk c e) { p with disk := W } = (.ok found, p') ∧
      HasTaken root out (outputOf compiler W root) W (siteFiles c d) found p' := by
  have hcopy : ∀ s source, ¬ isPage s = true → W.get? (root ++ s) = some (.file source) →
      outputOf compiler W root s = some source := by
    intro s source hpage hsource
    rw [outputOf, if_neg hpage, bytesAt_of_file hsource]
  obtain ⟨found, p', hrun, htaken⟩ := Site.exists_walk h.wiped h.below h.ne h.skips hcopy p
  rw [← h.files] at htaken
  exact ⟨found, p', hrun, htaken⟩

end IsSettled

/-- **Nothing stops a build after its output folder has been wiped** and its exclusions read: no
copy fails, and a page that fails is reported. -/
theorem build_returns {names : List Text} {p₁ : Progress} {W₁ : Disk} (hdisk : p.disk.WellFormed)
    (hrelative : Path.rootSlashes c.output = 0)
    (hbelow : (Path.normalSegments c.output).head? ≠ some "..".text)
    (hrefusal : c.refusal? p.disk.here = none)
    (hstore : runFrom (readFragments c) p = (.ok store, p₁))
    (hwipe : runFrom (wipeOutput c) p.disk = (.ok (), W))
    (hnames : runFrom (Exclusion.readNames c) W = (.ok names, W₁)) :
    ∃ report p', runFrom (build markdown markers schedule c) p = (.ok report, p') := by
  obtain ⟨rfl, hsettled⟩ := isSettled_of_run hdisk hrelative hbelow hrefusal hwipe hnames
  obtain ⟨found, p₂, hwalk, -⟩ := hsettled.exists_walk
    (fun s => ⟨store, c.activeClass, markdown, c.maxDepth, markers s⟩) p₁
  have hkeep : p₁.disk = p.disk := by
    have hkeep := (keeps_readFragments c p.disk).invariant rfl
    rwa [hstore] at hkeep
  exact runFrom_build_of_walk hrefusal hstore (hkeep ▸ hwipe) hnames hwalk

end

/-! ## A small site -/

/-- The place a text stands for, from the root. -/
def placeOf (s : String) : List Text := splitOn '/' s.text

/-- A site with a page that can be compiled, one that cannot, a picture, and old output. -/
def oldBlog : Disk where
  here := placeOf "site"
  entries := [(placeOf "site", .folder), (placeOf "site/_imports", .folder),
    (placeOf "site/public", .folder), (placeOf "site/public/old.html", .file (utf8 "old".text)),
    (placeOf "site/blog", .folder),
    (placeOf "site/blog/bad.html", .file (utf8 "<sergey-import src=\"x\">".text)),
    (placeOf "site/logo.svg", .file [0, 255]),
    (placeOf "site/index.html", .file (utf8 "Hi".text))]

/-- Settings under which no page with an import can be compiled. -/
def flatConfig : Config := { Config.default with maxDepth := 0 }

end Stencil.Site
