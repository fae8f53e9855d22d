import Mathlib.Logic.Relation
import Stencil.Proofs.Site.Mirror
import Stencil.Proofs.Site.Pages

set_option autoImplicit false

/-! # A pool of page tasks

The pages of a site are handed to workers. Any task may run next, at one go, and any outcome may
be the next to be entered into the report (`Pool.Step`). What a task does does not depend on the
tasks before it: it reads a file outside the output folder and writes where nothing stands
(`exists_makePage`). So the disk after some tasks holds what it held and their pages, in whatever
order they ran (`HasBuilt`), and a run of the pool can go on until all is entered
(`exists_step_of_not_isDone`).
-/

namespace Stencil.Site

open Text Disk Action

/-! ## Steps -/

/-- The report with the outcome of a page entered. -/
def Report.enter (report : Report) (s : List Text) (outcome : Except Text Unit) : Report :=
  match outcome with
  | .ok _ => { report with pages := report.pages ++ [pathText s] }
  | .error message =>
      { report with failures := Table.set (pathText s) message report.failures }

/-- What is reported when the outcome of a page is entered. -/
def Progress.enter (p : Progress) (s : List Text) (outcome : Except Text Unit) : Progress :=
  match outcome with
  | .ok _ => p
  | .error message => p.report (.failed (pathText s) message)

/-- A pool of tasks: the pages that wait, the outcomes that are not entered yet, and the report. -/
structure Pool where
  waiting : List (List Text)
  finished : List (List Text × Except Text Unit)
  report : Report
  progress : Progress

/-- The pool before any task has run. -/
def Pool.start (pages : List (List Text)) (copied : List Text) (p : Progress) : Pool :=
  ⟨pages, [], ⟨[], copied, []⟩, p⟩

/-- Whether all tasks have run and all outcomes are entered. -/
def Pool.IsDone (pool : Pool) : Prop := pool.waiting = [] ∧ pool.finished = []

/-- One step of a pool: a page that waits is built, or an outcome is entered. -/
inductive Pool.Step (compiler : List Text → Compiler) (c : Config) : Pool → Pool → Prop
  | run {before after : List (List Text)} {finished : List (List Text × Except Text Unit)}
      {report : Report} {p p' : Progress} {s : List Text} {outcome : Except Text Unit}
      (hrun : Id.run ((makePage (compiler s) c s).run p) = (outcome, p')) :
      Step compiler c ⟨before ++ s :: after, finished, report, p⟩
        ⟨before ++ after, finished ++ [(s, outcome)], report, p'⟩
  | enter {waiting : List (List Text)} {before after : List (List Text × Except Text Unit)}
      {report : Report} {p : Progress} {s : List Text} {outcome : Except Text Unit} :
      Step compiler c ⟨waiting, before ++ (s, outcome) :: after, report, p⟩
        ⟨waiting, before ++ after, report.enter s outcome, p.enter s outcome⟩

/-- A run of a pool: some steps, one after the other. -/
def Pool.Run (compiler : List Text → Compiler) (c : Config) : Pool → Pool → Prop :=
  Relation.ReflTransGen (Pool.Step compiler c)

section

variable {compiler : List Text → Compiler} {c : Config} {root out s q : List Text}
  {D₀ D D' W : Disk} {done pages : List (List Text)} {copied : List Text} {p p' : Progress}
  {report : Report} {pool pool' : Pool} {bytes : List UInt8} {entry : Entry}

theorem run_takePage (compiler : List Text → Compiler) (c : Config) (report : Report)
    (s : List Text) (p : Progress) :
    Id.run ((takePage compiler c report s).run p)
      = (report.enter s (Id.run ((makePage (compiler s) c s).run p)).1,
        (Id.run ((makePage (compiler s) c s).run p)).2.enter s
          (Id.run ((makePage (compiler s) c s).run p)).1) := by
  cases hmake : Id.run ((makePage (compiler s) c s).run p) with
  | mk outcome p' =>
      cases outcome with
      | ok _ => exact run_takePage_of_ok hmake
      | error message => exact run_takePage_of_error hmake

/-- Building the pages one after the other, in any order, is a run of the pool. -/
theorem run_makePages (schedule : List (List Text)) (report : Report) (p : Progress)
    {waiting : List (List Text)} (h : schedule.Perm waiting) :
    Pool.Run compiler c ⟨waiting, [], report, p⟩
      ⟨[], [], (Id.run ((makePages compiler c report schedule).run p)).1,
        (Id.run ((makePages compiler c report schedule).run p)).2⟩ := by
  induction schedule generalizing waiting report p with
  | nil =>
      obtain rfl := List.nil_perm.1 h
      exact .refl
  | cons s schedule ih =>
      obtain ⟨before, after, rfl⟩ := List.append_of_mem (h.subset List.mem_cons_self)
      have hrest : schedule.Perm (before ++ after) :=
        (h.trans List.perm_middle).cons_inv
      cases hmake : Id.run ((makePage (compiler s) c s).run p) with
      | mk outcome p₁ =>
          have htake := run_takePage compiler c report s p
          rw [hmake] at htake
          rw [makePages, List.foldlM_cons, run_bind_of_eq htake]
          -- The page is built and its outcome entered at once.
          have hrun : Pool.Step compiler c ⟨before ++ s :: after, [], report, p⟩
              ⟨before ++ after, [(s, outcome)], report, p₁⟩ := .run hmake
          have henter : Pool.Step compiler c ⟨before ++ after, [(s, outcome)], report, p₁⟩
              ⟨before ++ after, [], report.enter s outcome, p₁.enter s outcome⟩ :=
            @Pool.Step.enter compiler c (before ++ after) [] [] report p₁ s outcome
          exact .head hrun (.head henter (ih _ _ hrest))

/-! ## What a task does -/

/-- How the task of a page ends, as the page stands on a disk. -/
def verdict (compiler : List Text → Compiler) (d : Disk) (root s : List Text) :
    Except Text Unit :=
  match reason? (published compiler d root s) with
  | some message => .error message
  | none => .ok ()

theorem verdict_eq_error_iff {compiler : List Text → Compiler} {d : Disk} {root s : List Text}
    {message : Text} : verdict compiler d root s = .error message ↔
      reason? (published compiler d root s) = some message := by
  unfold verdict
  cases reason? (published compiler d root s) <;> simp

/-- A page of a site that lies outside the output folder. -/
structure IsPageAt (root out : List Text) (d : Disk) (s : List Text) : Prop where
  page : isPage s = true
  source : ∃ bytes, d.get? (root ++ s) = some (.file bytes)
  outside : ¬ out <+: root ++ s

/-- The bytes in the file of a page, if it can be compiled. -/
def pageBytes? (compiler : List Text → Compiler) (d : Disk) (root s : List Text) :
    Option (List UInt8) :=
  (published compiler d root s).toOption.map written

/-- What the building of a page puts on the disk: its file, and folders on the way. -/
def Puts (compiler : List Text → Compiler) (d : Disk) (root out s q : List Text) (entry : Entry) :
    Prop :=
  ∃ bytes, pageBytes? compiler d root s = some bytes ∧
    (q = out ++ s ∧ entry = .file bytes ∨
      q ≠ out ++ s ∧ out <+: q ∧ q <+: out ++ s ∧ entry = .folder)

/-- Some pages have been built: the disk has what it had, and what their building puts there. -/
structure HasBuilt (compiler : List Text → Compiler) (c : Config) (root out : List Text)
    (D₀ : Disk) (done : List (List Text)) (D : Disk) : Prop extends Mirrors c root out D where
  get? : ∀ q entry, D.get? q = some entry ↔
    D₀.get? q = some entry ∨ ∃ s ∈ done, Puts compiler D₀ root out s q entry

/-- No page of a site lies below another one. -/
theorem IsPageAt.eq_of_below (hD₀ : D₀.IsTree) {s t : List Text} (hs : IsPageAt root out D₀ s)
    (ht : IsPageAt root out D₀ t) (h : s <+: t) : s = t := by
  by_contra hne
  obtain ⟨bytes, hfile⟩ := hs.source
  obtain ⟨bytes', hfile'⟩ := ht.source
  have hfolder := hD₀.folder_of_prefix ((List.prefix_append_right_inj root).2 h)
    (by rw [hfile']; simp) fun heq => hne (List.append_cancel_left heq)
  rw [hfolder] at hfile
  cases hfile

theorem IsWalked.hasBuilt (h : IsWalked c root out W D₀) :
    HasBuilt compiler c root out D₀ [] D₀ :=
  ⟨h.toMirrors, fun q entry => by simp⟩

namespace HasBuilt

theorem source (h : HasBuilt compiler c root out D₀ done D)
    (hs : D₀.get? (root ++ s) = some (.file bytes)) : D.get? (root ++ s) = some (.file bytes) :=
  (h.get? _ _).2 (.inl hs)

/-- A page that cannot be compiled puts nothing on the disk. -/
theorem append_none (h : HasBuilt compiler c root out D₀ done D)
    (hnone : pageBytes? compiler D₀ root s = none) :
    HasBuilt compiler c root out D₀ (done ++ [s]) D := by
  refine ⟨h.toMirrors, fun q entry => ?_⟩
  rw [h.get?]
  constructor
  · rintro (hq | ⟨t, ht, hputs⟩)
    · exact .inl hq
    · exact .inr ⟨t, List.mem_append_left _ ht, hputs⟩
  · rintro (hq | ⟨t, ht, hputs⟩)
    · exact .inl hq
    · rcases List.mem_append.1 ht with ht | ht
      · exact .inr ⟨t, ht, hputs⟩
      · obtain ⟨bytes, hbytes, -⟩ := hputs
        rw [List.mem_singleton.1 ht, hnone] at hbytes
        cases hbytes

/-- Where a page is written, no entry was, and no other page puts one. -/
theorem written_iff (h₀ : IsWalked c root out W D₀) (hs : IsPageAt root out D₀ s)
    (hdone : ∀ t ∈ done, IsPageAt root out D₀ t) :
    (D₀.get? (out ++ s) = some entry ∨
        ∃ t ∈ done, Puts compiler D₀ root out t (out ++ s) entry) ↔
      s ∈ done ∧ ∃ bytes, pageBytes? compiler D₀ root s = some bytes ∧ entry = .file bytes := by
  constructor
  · rintro (hq | ⟨t, ht, b, hb, ⟨heq, rfl⟩ | ⟨hne, -, hpre, -⟩⟩)
    · obtain ⟨source, hsource⟩ := hs.source
      cases entry with
      | file b => exact absurd hq (h₀.free hs.page)
      | folder => exact absurd hq (h₀.toMirrors.not_folder hsource)
    · rw [List.append_cancel_left heq]
      exact ⟨ht, b, hb, rfl⟩
    · have heq := hs.eq_of_below h₀.tree (hdone t ht) ((List.prefix_append_right_inj out).1 hpre)
      exact absurd (by rw [heq]) hne
  · rintro ⟨hmem, bytes, hbytes, rfl⟩
    exact .inr ⟨s, hmem, bytes, hbytes, .inl ⟨rfl, rfl⟩⟩

/-- On the way to where a page is written, there are only folders. -/
theorem entry_of_way (h₀ : IsWalked c root out W D₀) (hs : IsPageAt root out D₀ s)
    (hdone : ∀ t ∈ done, IsPageAt root out D₀ t) (hne : q ≠ out ++ s) (hout : out <+: q)
    (hway : q <+: out ++ s)
    (hq : D₀.get? q = some entry ∨ ∃ t ∈ done, Puts compiler D₀ root out t q entry) :
    entry = .folder := by
  obtain ⟨u, rfl⟩ := hout
  have hu := (List.prefix_append_right_inj out).1 hway
  rcases hq with hq | ⟨t, ht, b, hb, ⟨heq, -⟩ | ⟨-, -, -, rfl⟩⟩
  · obtain ⟨source, hsource⟩ := hs.source
    exact h₀.toMirrors.folder_of_way hsource hu (fun heq => hne (by rw [heq])) hq
  · obtain rfl := List.append_cancel_left heq
    exact absurd (by rw [(hdone u ht).eq_of_below h₀.tree hs hu]) hne
  · rfl

/-- A page that is written is one more page built. -/
theorem append_writes (h₀ : IsWalked c root out W D₀) (hs : IsPageAt root out D₀ s)
    (hdone : ∀ t ∈ done, IsPageAt root out D₀ t)
    (hbytes : pageBytes? compiler D₀ root s = some bytes)
    (h : HasBuilt compiler c root out D₀ done D) (hw : Writes out s bytes D D') :
    HasBuilt compiler c root out D₀ (done ++ [s]) D' := by
  obtain ⟨source, hsource⟩ := hs.source
  have hmem : ∀ t ∈ done ++ [s], IsPageAt root out D₀ t := by
    simpa [or_imp, forall_and] using ⟨hdone, hs⟩
  refine ⟨hw.mirrors h.toMirrors (h.source hsource), fun q entry => ?_⟩
  have hnew : Puts compiler D₀ root out s q entry → D₀.get? q = some entry ∨
      ∃ t ∈ done ++ [s], Puts compiler D₀ root out t q entry :=
    fun hputs => .inr ⟨s, List.mem_append_right _ (List.mem_singleton_self s), hputs⟩
  rw [hw.get?]
  -- Writing changes the place of the page and the way to it, and so does what the page puts.
  by_cases hq : q = out ++ s
  · rw [if_pos hq]
    subst hq
    rw [written_iff h₀ hs hmem]
    simp [hbytes, eq_comm]
  · rw [if_neg hq]
    by_cases hway : out <+: q ∧ q <+: out ++ s
    · rw [if_pos hway]
      constructor
      · intro he
        obtain rfl := Option.some.inj he
        exact hnew ⟨bytes, hbytes, .inr ⟨hq, hway.1, hway.2, rfl⟩⟩
      · intro hall
        rw [entry_of_way h₀ hs hmem hq hway.1 hway.2 hall]
    · rw [if_neg hway, h.get?]
      constructor
      · rintro (hq | ⟨t, ht, hputs⟩)
        · exact .inl hq
        · exact .inr ⟨t, List.mem_append_left _ ht, hputs⟩
      · rintro (hq | ⟨t, ht, hputs⟩)
        · exact .inl hq
        · rcases List.mem_append.1 ht with ht | ht
          · exact .inr ⟨t, ht, hputs⟩
          · obtain ⟨b, -, ⟨heq, -⟩ | ⟨-, hout, hpre, -⟩⟩ := hputs
            · exact absurd (heq.trans (by rw [List.mem_singleton.1 ht])) hq
            · exact absurd ⟨hout, List.mem_singleton.1 ht ▸ hpre⟩ hway

/-- A page that has been built stands in the output folder as it was compiled, if it was. -/
theorem get?_page (h : HasBuilt compiler c root out D₀ done D) (h₀ : IsWalked c root out W D₀)
    (hdone : ∀ t ∈ done, IsPageAt root out D₀ t) (hs : s ∈ done) :
    D.get? (out ++ s) = (pageBytes? compiler D₀ root s).map .file := by
  refine Option.ext fun entry => ?_
  rw [h.get?, written_iff h₀ (hdone s hs) hdone]
  simp [hs, eq_comm]

/-- Disks on which the same pages have been built hold the same, whatever the order was. -/
theorem get?_congr {done' : List (List Text)} (h : HasBuilt compiler c root out D₀ done D)
    (h' : HasBuilt compiler c root out D₀ done' D') (hmem : ∀ s, s ∈ done ↔ s ∈ done')
    (q : List Text) : D'.get? q = D.get? q := by
  refine Option.ext fun entry => ?_
  rw [h'.get?, h.get?]
  simp only [hmem]

end HasBuilt

/-- The task of a page ends as the page says, and puts its file on the disk. -/
theorem exists_makePage (h₀ : IsWalked c root out W D₀) (hs : IsPageAt root out D₀ s)
    (hdone : ∀ t ∈ done, IsPageAt root out D₀ t)
    (h : HasBuilt compiler c root out D₀ done p.disk) :
    ∃ p', Id.run ((makePage (compiler s) c s).run p) = (verdict compiler D₀ root s, p') ∧
      HasBuilt compiler c root out D₀ (done ++ [s]) p'.disk := by
  obtain ⟨source, hsource⟩ := hs.source
  have hfile := h.source hsource
  have hread := runFrom_readFile (h.toMirrors.locate_source (by rw [hfile]; simp)) hfile
  have hpublished : (Work.outcome ((compiler s).publish ('/' :: pathText s)
      (Exclusion.textOf source)) Session.start).1 = published compiler D₀ root s := by
    rw [published, bytesAt_of_file hsource]
  unfold verdict
  cases hresult : published compiler D₀ root s with
  | error failure =>
      have hnone : pageBytes? compiler D₀ root s = none := by
        rw [pageBytes?, hresult]
        rfl
      obtain ⟨events, hmake⟩ := run_makePage_of_error hread (hpublished.trans hresult)
      exact ⟨_, hmake, h.append_none hnone⟩
  | ok page =>
      have hbytes : pageBytes? compiler D₀ root s = some (written page) := by
        rw [pageBytes?, hresult]
        rfl
      obtain ⟨D', hwrite, hw⟩ := h.toMirrors.exists_writes hfile (written page)
      obtain ⟨events, hmake⟩ := run_makePage_of_ok hread (hpublished.trans hresult) hwrite
      exact ⟨_, hmake, h.append_writes h₀ hs hdone hbytes hw⟩

/-! ## Runs of the pool -/

/-- The report with the outcomes of some pages entered, one after the other. -/
def Report.enterAll (compiler : List Text → Compiler) (d : Disk) (root : List Text)
    (report : Report) (entered : List (List Text)) : Report :=
  entered.foldl (fun report s => report.enter s (verdict compiler d root s)) report

/-- What holds of a pool after some steps: every page waits or has been built, every page built
has its outcome ready or entered, and the outcomes are those of the pages as they stood. -/
structure Pool.HasRun (compiler : List Text → Compiler) (c : Config) (root out : List Text)
    (D₀ : Disk) (pages : List (List Text)) (copied : List Text) (done entered : List (List Text))
    (pool : Pool) : Prop where
  pages_perm : (pool.waiting ++ done).Perm pages
  done_perm : (pool.finished.map Prod.fst ++ entered).Perm done
  outcome : ∀ x ∈ pool.finished, x.2 = verdict compiler D₀ root x.1
  report : pool.report = Report.enterAll compiler D₀ root ⟨[], copied, []⟩ entered
  built : HasBuilt compiler c root out D₀ done pool.progress.disk

theorem Report.enterAll_concat (compiler : List Text → Compiler) (d : Disk) (root : List Text)
    (report : Report) (entered : List (List Text)) (s : List Text) :
    Report.enterAll compiler d root report (entered ++ [s])
      = (Report.enterAll compiler d root report entered).enter s (verdict compiler d root s) :=
  List.foldl_append

theorem Pool.hasRun_start (h₀ : IsWalked c root out W p.disk) (pages : List (List Text))
    (copied : List Text) :
    (Pool.start pages copied p).HasRun compiler c root out p.disk pages copied [] [] :=
  ⟨by rw [List.append_nil]; exact .refl _, .refl _, by simp [Pool.start], rfl, h₀.hasBuilt⟩

theorem Progress.disk_enter (p : Progress) (s : List Text) (outcome : Except Text Unit) :
    (p.enter s outcome).disk = p.disk := by
  cases outcome <;> rfl

/-- A step of the pool keeps what holds of it. -/
theorem Pool.HasRun.step {entered : List (List Text)} (h₀ : IsWalked c root out W D₀)
    (hpages : ∀ s ∈ pages, IsPageAt root out D₀ s)
    (h : pool.HasRun compiler c root out D₀ pages copied done entered)
    (hstep : Pool.Step compiler c pool pool') :
    ∃ done' entered', pool'.HasRun compiler c root out D₀ pages copied done' entered' := by
  cases hstep with
  | @run before after finished report p p' s outcome hrun =>
      have hmem : ∀ t ∈ (before ++ s :: after) ++ done, IsPageAt root out D₀ t := fun t ht =>
        hpages t (h.pages_perm.subset ht)
      obtain ⟨p₁, hmake, hbuilt⟩ := exists_makePage h₀ (hmem s (by simp))
        (fun t ht => hmem t (List.mem_append_right _ ht)) h.built
      obtain ⟨rfl, rfl⟩ := Prod.mk.inj (hrun.symm.trans hmake)
      -- The page is built now, and its outcome waits to be entered.
      refine ⟨done ++ [s], entered, ?_, ?_, ?_, h.report, hbuilt⟩
      · refine List.Perm.trans ?_ h.pages_perm
        show ((before ++ after) ++ (done ++ [s])).Perm ((before ++ s :: after) ++ done)
        rw [← List.append_assoc]
        refine (List.perm_append_singleton s _).trans ?_
        rw [← List.cons_append]
        exact List.perm_middle.symm.append_right done
      · show ((finished ++ [(s, _)]).map Prod.fst ++ entered).Perm (done ++ [s])
        have hdone : (finished.map Prod.fst ++ entered).Perm done := h.done_perm
        rw [List.map_append, List.map_singleton, List.append_assoc, List.singleton_append]
        refine List.perm_middle.trans ?_
        exact (hdone.cons s).trans (List.perm_append_singleton s done).symm
      · intro x hx
        rcases List.mem_append.1 hx with hx | hx
        · exact h.outcome x hx
        · rw [List.mem_singleton.1 hx]
  | @enter waiting before after report p s outcome =>
      have houtcome : outcome = verdict compiler D₀ root s := h.outcome (s, outcome) (by simp)
      -- The outcome is entered, and the disk is not looked at.
      refine ⟨done, entered ++ [s], h.pages_perm, ?_, fun x hx => h.outcome x ?_, ?_, ?_⟩
      · refine List.Perm.trans ?_ h.done_perm
        show ((before ++ after).map Prod.fst ++ (entered ++ [s])).Perm
          ((before ++ (s, outcome) :: after).map Prod.fst ++ entered)
        rw [← List.append_assoc, List.map_append, List.map_append, List.map_cons]
        refine (List.perm_append_singleton s _).trans ?_
        rw [← List.cons_append]
        exact List.perm_middle.symm.append_right entered
      · rcases List.mem_append.1 hx with hx | hx
        · exact List.mem_append_left _ hx
        · exact List.mem_append_right _ (List.mem_cons_of_mem _ hx)
      · have hreport : report = _ := h.report
        rw [Report.enterAll_concat, ← hreport, houtcome]
      · show HasBuilt _ _ _ _ _ _ (p.enter s outcome).disk
        rw [Progress.disk_enter]
        exact h.built

/-- What holds of a pool after any run. -/
theorem Pool.Run.hasRun (h₀ : IsWalked c root out W p.disk)
    (hpages : ∀ s ∈ pages, IsPageAt root out p.disk s)
    (hrun : Pool.Run compiler c (.start pages copied p) pool) :
    ∃ done entered, pool.HasRun compiler c root out p.disk pages copied done entered := by
  induction hrun with
  | refl => exact ⟨[], [], Pool.hasRun_start h₀ pages copied⟩
  | tail _ hstep ih =>
      obtain ⟨done, entered, h⟩ := ih
      exact h.step h₀ hpages hstep

/-- When all is done, every page has been built and entered. -/
theorem Pool.HasRun.of_isDone {entered : List (List Text)}
    (h : pool.HasRun compiler c root out D₀ pages copied done entered) (hdone : pool.IsDone) :
    done.Perm pages ∧ entered.Perm pages := by
  have hpages := h.pages_perm
  have hentered := h.done_perm
  rw [hdone.1, List.nil_append] at hpages
  rw [hdone.2, List.map_nil, List.nil_append] at hentered
  exact ⟨hpages, hentered.trans hpages⟩

/-- A pool in which something is left to do can take a step: no page stops the others. -/
theorem Pool.exists_step_of_not_isDone (h : ¬ pool.IsDone) :
    ∃ pool', Pool.Step compiler c pool pool' := by
  obtain ⟨waiting, finished, report, p⟩ := pool
  cases waiting with
  | cons s waiting => exact ⟨_, @Pool.Step.run compiler c [] waiting finished report p _ s _ rfl⟩
  | nil =>
      cases finished with
      | cons x finished => exact ⟨_, @Pool.Step.enter compiler c [] [] finished report p x.1 x.2⟩
      | nil => exact absurd ⟨rfl, rfl⟩ h

/-- The number of steps that a pool has still to take. -/
def Pool.left (pool : Pool) : Nat := 2 * pool.waiting.length + pool.finished.length

theorem Pool.Step.left_lt (h : Pool.Step compiler c pool pool') : pool'.left < pool.left := by
  cases h <;> simp only [Pool.left, List.length_append, List.length_cons, List.length_nil] <;> omega

/-- Every run of a pool can be brought to an end. -/
theorem Pool.exists_run_isDone (compiler : List Text → Compiler) (c : Config) (pool : Pool) :
    ∃ pool', Pool.Run compiler c pool pool' ∧ pool'.IsDone := by
  induction hn : pool.left using Nat.strong_induction_on generalizing pool with
  | _ n ih =>
      by_cases hdone : pool.IsDone
      · exact ⟨pool, .refl, hdone⟩
      · obtain ⟨pool₁, hstep⟩ : ∃ pool₁, Pool.Step compiler c pool pool₁ :=
          Pool.exists_step_of_not_isDone hdone
        obtain ⟨pool₂, hrun, hdone₂⟩ := ih _ (hn ▸ hstep.left_lt) pool₁ rfl
        exact ⟨pool₂, .head hstep hrun, hdone₂⟩

/-! ## Reports -/

theorem copied_enterAll (entered : List (List Text)) (report : Report) :
    (Report.enterAll compiler D₀ root report entered).copied = report.copied := by
  induction entered generalizing report with
  | nil => rfl
  | cons s entered ih =>
      rw [Report.enterAll, List.foldl_cons, ← Report.enterAll, ih]
      unfold Report.enter
      split <;> rfl

/-- The pages entered as built. -/
theorem pages_enterAll (entered : List (List Text)) (report : Report) :
    (Report.enterAll compiler D₀ root report entered).pages
      = report.pages ++ entered.filterMap (builtPath? compiler D₀ root) := by
  induction entered generalizing report with
  | nil => simp [Report.enterAll]
  | cons s entered ih =>
      rw [Report.enterAll, List.foldl_cons, ← Report.enterAll, ih, verdict]
      cases hreason : reason? (published compiler D₀ root s) with
      | some message =>
          have hbuilt : builtPath? compiler D₀ root s = none := if_neg (by simp [hreason])
          rw [List.filterMap_cons_none hbuilt]
          rfl
      | none =>
          have hbuilt : builtPath? compiler D₀ root s = some (pathText s) := if_pos hreason
          rw [List.filterMap_cons_some hbuilt]
          simp [Report.enter]

/-- The pages entered as failures, each with its message. -/
theorem failures_enterAll {entered : List (List Text)} (copied : List Text)
    (hinj : ∀ s ∈ entered, ∀ t ∈ entered, pathText s = pathText t → s = t) (path message : Text) :
    Table.get? (Report.enterAll compiler D₀ root ⟨[], copied, []⟩ entered).failures path
        = some message ↔
      ∃ s ∈ entered, pathText s = path ∧ verdict compiler D₀ root s = .error message := by
  induction entered using List.reverseRecOn with
  | nil => simp [Report.enterAll, Table.get?]
  | append_singleton entered s ih =>
      have ih := ih fun s hs t ht => hinj s (by simp [hs]) t (by simp [ht])
      have hlast : ∀ t ∈ entered, pathText t = pathText s → t = s := fun t ht =>
        hinj t (by simp [ht]) s (by simp)
      rw [Report.enterAll_concat]
      simp only [List.mem_append, List.mem_singleton, or_and_right, exists_or, exists_eq_left]
      rw [← ih]
      cases hverdict : verdict compiler D₀ root s with
      | ok _ => simp [Report.enter]
      | error m =>
          show Table.get? (Table.set (pathText s) m _) path = some message ↔ _
          by_cases hpath : path = pathText s
          · subst hpath
            rw [Table.get?_set_self]
            constructor
            · rintro ⟨⟩
              exact .inr ⟨rfl, rfl⟩
            · rintro (hold | ⟨-, hm⟩)
              · -- The path was entered before, so the page was.
                obtain ⟨t, ht, htpath, htverdict⟩ := ih.1 hold
                rw [hlast t ht htpath, hverdict] at htverdict
                rw [Except.error.inj htverdict]
              · rw [Except.error.inj hm]
          · rw [Table.get?_set_of_ne hpath]
            exact ⟨.inl, fun h => h.resolve_right fun hs => hpath hs.1.symm⟩

end

end Stencil.Site
