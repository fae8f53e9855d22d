import Stencil.Proofs.Site.Output
import Stencil.Proofs.Site.Walk

set_option autoImplicit false

/-! # Copying during the walk

The walk over a site lists each folder when it enters it, after files have been copied. Since
only the output folder changes meanwhile, and the walk leaves that out, it comes to the files of
a walk over the disk it started with (`exists_walk`): it copies those that are no pages, and no
copy can fail.
-/

namespace Stencil.Site

open Text Disk Action

/-! ## The state of a build -/

theorem runFrom_onDisk {α : Type} (action : Action α) (p : Progress) :
    runFrom (Task.onDisk action) p =
      match runFrom action p.disk with
      | (.ok a, D) => (.ok a, { p with disk := D })
      | (.error fault, D) => (.error (.fault fault), { p with disk := D }) := by
  have hget : runFrom (modifyGet (Progress.onDisk action) : Task (Except Disk.Fault α)) p
      = (.ok (runFrom action p.disk).1, { p with disk := (runFrom action p.disk).2 }) := rfl
  rw [Task.onDisk, runFrom_bind, hget]
  cases runFrom action p.disk with
  | mk result D => cases result <;> rfl

theorem runFrom_onDisk_of_ok {α : Type} {action : Action α} {p : Progress} {a : α} {D : Disk}
    (h : runFrom action p.disk = (.ok a, D)) :
    runFrom (Task.onDisk action) p = (.ok a, { p with disk := D }) := by
  rw [runFrom_onDisk, h]

theorem exists_of_runFrom_onDisk {α : Type} {action : Action α} {p p' : Progress} {a : α}
    (h : runFrom (Task.onDisk action) p = (.ok a, p')) :
    ∃ D, runFrom action p.disk = (.ok a, D) ∧ p' = { p with disk := D } := by
  rw [runFrom_onDisk] at h
  split at h
  · rename_i a' D hrun
    cases h
    exact ⟨D, hrun, rfl⟩
  · cases h

/-- Reporting leaves the disk as it is. -/
theorem exists_runFrom_detail (c : Config) (event : Event) (p : Progress) :
    ∃ events, runFrom (Task.detail c event) p = (.ok (), { p with events := events }) := by
  unfold Task.detail
  split
  · exact ⟨_, rfl⟩
  · exact ⟨p.events, rfl⟩

section

variable {c : Config} {e : Exclusion} {root out folder s : List Text}
  {output : List Text → Option (List UInt8)} {d W : Disk} {l : List (List Text)}
  {found : Found} {p : Progress} {source : List UInt8}

/-! ## One file -/

theorem run_takeFile_of_page (h : isPage s = true) (c : Config) (found : Found) :
    (takeFile c s).run found
      = (pure ((), { found with pages := found.pages ++ [s] }) : Task (Unit × Found)) := by
  rw [takeFile, if_pos h]
  rfl

theorem run_takeFile_of_not_page (h : ¬ isPage s = true) (c : Config) (found : Found) :
    (takeFile c s).run found = (do
      Task.onDisk (do writeOutput c s (← readFile (c.root.below s)))
      Task.detail c (.copied (pathText s))
      pure ((), { found with copied := found.copied ++ [pathText s] }) : Task (Unit × Found)) := by
  rw [takeFile, if_neg h]
  simp

/-- A file that can be read and written is taken, and recorded as copied. -/
theorem exists_run_takeFile (hpage : ¬ isPage s = true) {D : Disk}
    (hread : runFrom (readFile (c.root.below s)) p.disk = (.ok source, p.disk))
    (hwrite : runFrom (writeOutput c s source) p.disk = (.ok (), D)) (found : Found) :
    ∃ events, runFrom ((takeFile c s).run found) p
      = (.ok ((), { found with copied := found.copied ++ [pathText s] }),
        { p with disk := D, events }) := by
  have hcopied : runFrom (do writeOutput c s (← readFile (c.root.below s))) p.disk
      = (.ok (), D) := by
    rw [runFrom_bind_of_ok hread, hwrite]
  obtain ⟨events, hdetail⟩ := exists_runFrom_detail c (.copied (pathText s)) { p with disk := D }
  refine ⟨events, ?_⟩
  rw [run_takeFile_of_not_page hpage, runFrom_bind_of_ok (runFrom_onDisk_of_ok hcopied),
    runFrom_bind_of_ok hdetail, runFrom_pure]

/-- A row of files has been taken: the pages among them are kept, the others copied. -/
structure HasTaken (root out : List Text) (output : List Text → Option (List UInt8)) (W : Disk)
    (l : List (List Text)) (found : Found) (p : Progress) : Prop where
  pages : found.pages = l.filter isPage
  copied : found.copied = (l.filter (!isPage ·)).map pathText
  synced : IsSynced root out output W (l.filter (!isPage ·)) p.disk

theorem exists_takeFile (h : HasTaken root out output W l found p) (hW : IsWiped c root out d W)
    (hroot : W.get? root = some .folder) (hs : W.get? (root ++ s) = some (.file source))
    (hout : ¬ out <+: root ++ s) (hcopy : ¬ isPage s = true → output s = some source) :
    ∃ found' p', runFrom ((takeFile c s).run found) p = (.ok ((), found'), p') ∧
      HasTaken root out output W (l ++ [s]) found' p' := by
  by_cases hpage : isPage s = true
  · rw [run_takeFile_of_page hpage]
    refine ⟨_, p, rfl, ?_, ?_, ?_⟩
    · simp [List.filter_append, hpage, h.pages]
    · simp [List.filter_append, hpage, h.copied]
    · simpa [List.filter_append, hpage] using h.synced
  · obtain ⟨D, hwrite, hsynced⟩ := h.synced.exists_writeOutput hW hroot hs (hcopy hpage)
    obtain ⟨events, hrun⟩ :=
      exists_run_takeFile hpage (h.synced.runFrom_readFile hW hs hout) hwrite found
    refine ⟨_, _, hrun, ?_, ?_, ?_⟩
    · simp [List.filter_append, hpage, h.pages]
    · simp [List.filter_append, hpage, h.copied]
    · simpa [List.filter_append, hpage] using hsynced

/-! ## The walk -/

/-- How the walk lists a folder. -/
def listing (c : Config) (segments : List Text) : StateT Found Task (List (Text × Bool)) :=
  (Task.onDisk (listFolder c segments) : Task (List (Text × Bool)))

theorem run_listing_of_ok {names : List (Text × Bool)}
    (h : runFrom (listFolder c folder) p.disk = (.ok names, p.disk)) :
    runFrom ((listing c folder).run found) p = (.ok (names, found), p) := by
  have hlift : (listing c folder).run found
      = Task.onDisk (listFolder c folder) >>= fun names => pure (names, found) := rfl
  rw [hlift, runFrom_bind_of_ok (runFrom_onDisk_of_ok h), runFrom_pure]

/-- The folders of the site are listed as they were when the walk began. -/
theorem run_listing (h : IsSynced root out output W l p.disk) (hW : IsWiped c root out d W)
    (hfolder : W.get? (root ++ folder) = some .folder) (hout : ¬ out <+: root ++ folder) :
    runFrom ((listing c folder).run found) p = (.ok (W.names (root ++ folder), found), p) := by
  have hnames : p.disk.names (root ++ folder) = W.names (root ++ folder) := by
    refine names_congr h.tree hW.tree fun name => ?_
    rw [kind?, kind?, h.around _ (eq_of_prefix_concat hout)]
  refine run_listing_of_ok ?_
  rw [listFolder, runFrom_locate_bind (h.locate_source hW hfolder), runFrom_get_bind, hnames,
    runFrom_pure]

/-- Work that takes some files for each name takes the files of all names, if what holds of the
files taken so far goes on from each name to the next. -/
theorem exists_forM {α : Type} {R : List (List Text) → Found → Progress → Prop}
    {work : α → StateT Found Task Unit} {files : α → List (List Text)} {names : List α}
    (hstep : ∀ x ∈ names, ∀ {l found p}, R l found p →
      ∃ found' p', runFrom ((work x).run found) p = (.ok ((), found'), p') ∧
        R (l ++ files x) found' p')
    (h : R l found p) :
    ∃ found' p', runFrom ((names.forM work).run found) p = (.ok ((), found'), p') ∧
      R (l ++ names.flatMap files) found' p' := by
  induction names generalizing l found p with
  | nil => exact ⟨found, p, rfl, by rwa [List.flatMap_nil, List.append_nil]⟩
  | cons x names ih =>
      obtain ⟨hx, hnames⟩ := List.forall_mem_cons.1 hstep
      obtain ⟨found₁, p₁, hrun₁, h₁⟩ := hx h
      obtain ⟨found₂, p₂, hrun₂, h₂⟩ := ih (fun y hy => hnames y hy) h₁
      refine ⟨found₂, p₂, ?_, by rwa [List.flatMap_cons, ← List.append_assoc]⟩
      refine (congrArg (fun work => runFrom work p) (StateT.run_bind _ _ found)).trans ?_
      exact (runFrom_bind_of_ok hrun₁ _).trans hrun₂

/-- A visit takes the files of the walk, in order, and succeeds. -/
theorem exists_visit (folder : List Text) (depth : Nat) (hW : IsWiped c root out d W)
    (hroot : W.get? root = some .folder)
    (hskip : ∀ t, root ++ t = out → e.skips t = true)
    (hcopy : ∀ s source, ¬ isPage s = true → W.get? (root ++ s) = some (.file source) →
      output s = some source)
    (hfolder : W.get? (root ++ folder) = some .folder)
    (hout : ¬ out <+: root ++ folder) (h : HasTaken root out output W l found p) :
    ∃ found' p', runFrom ((visit (listing c) e (takeFile c) depth folder).run found) p
        = (.ok ((), found'), p') ∧
      HasTaken root out output W
        (l ++ walkFrom (fun folder => W.names (root ++ folder)) e depth folder) found' p' := by
  induction depth generalizing folder l found p with
  | zero => exact ⟨found, p, rfl, by rwa [walkFrom, List.append_nil]⟩
  | succ depth ih =>
      rw [visit, StateT.run_bind, runFrom_bind_of_ok (run_listing h.synced hW hfolder hout),
        walkFrom]
      refine exists_forM (fun x hx l found p h => ?_) h
      obtain ⟨name, isFolder⟩ := x
      obtain ⟨entry, hentry, hkind⟩ := (mem_names hW.tree).1 hx
      rw [List.append_assoc] at hentry
      dsimp only
      by_cases hskipped : e.skips (folder ++ [name]) = true
      · rw [if_pos hskipped, if_pos hskipped, List.append_nil]
        exact ⟨found, p, rfl, h⟩
      · rw [if_neg hskipped, if_neg hskipped]
        have hbelow : ¬ out <+: root ++ (folder ++ [name]) :=
          not_prefix_concat hout fun e => hskipped (hskip _ e)
        subst hkind
        cases entry with
        | folder => exact ih _ hentry hbelow h
        | file source =>
            exact exists_takeFile h hW hroot hentry hbelow fun hpage =>
              hcopy _ source hpage hentry

/-- **The walk over a wiped site** finds its pages, and copies its other files. -/
theorem exists_walk (hW : IsWiped c root out d W) (hroot : root <+: out) (hne : root ≠ out)
    (hskip : ∀ t, root ++ t = out → e.skips t = true)
    (hcopy : ∀ s source, ¬ isPage s = true → W.get? (root ++ s) = some (.file source) →
      output s = some source) (p : Progress) :
    ∃ found p', runFrom (walk c e) { p with disk := W } = (.ok found, p') ∧
      HasTaken root out output W
        (walkFrom (fun folder => W.names (root ++ folder)) e (2 * W.height + 2) []) found p' := by
  have hfolder : W.get? root = some .folder :=
    hW.tree.folder_of_prefix hroot (by rw [hW.folder]; simp) hne
  have hout : ¬ out <+: root := not_prefix_of_ne hroot hne
  have hstart : HasTaken root out output W [] ⟨[], []⟩ { p with disk := W } :=
    ⟨rfl, rfl, hW.isSynced hroot⟩
  obtain ⟨found, p', hrun, htaken⟩ := exists_visit [] (2 * W.height + 2) hW hfolder
    hskip hcopy (by rwa [List.append_nil]) (by rwa [List.append_nil]) hstart
  refine ⟨found, p', ?_, by rwa [List.nil_append] at htaken⟩
  rw [walk, runFrom_get_bind]
  exact runFrom_bind_of_ok hrun _

end

end Stencil.Site
