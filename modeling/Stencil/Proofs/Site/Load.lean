import Stencil.Proofs.Disk.Frame
import Stencil.Proofs.Site.Copy

set_option autoImplicit false

/-! # Loading the fragments

A build reads its fragments before it writes anything. Whether it gets them or not, it leaves the
disk as it was (`keeps_readFragments`).
-/

namespace Stencil.Site

open Text Disk Disk.Action

/-- Whether a part of a build stops at a fault of the disk. -/
def Stop.IsFault (stop : Stop) : Prop := ∃ fault, stop = .fault fault

/-- Why the fragments cannot be loaded: a fault of the disk, or there is no folder of them. -/
def IsLoadStop (c : Config) (d : Disk) (stop : Stop) : Prop :=
  stop.IsFault ∨ d.isFolder c.importsFolder = false ∧ stop = .refused (.noImports c.importsFolder)

theorem keeps_onDisk {α : Type} {I : Disk → Prop} {P : α → Prop} {E : Fault → Prop}
    {action : Disk.Action α} (h : Keeps I P E action) :
    Keeps (fun p : Progress => I p.disk) P Stop.IsFault (Task.onDisk action) := by
  intro p hp
  have hdisk := h p.disk hp
  rw [runFrom_onDisk]
  generalize runFrom action p.disk = r at hdisk ⊢
  rcases r with ⟨fault | a, D⟩
  · exact ⟨⟨fault, rfl⟩, hdisk.2⟩
  · exact hdisk

theorem keeps_detail (I : Disk → Prop) (E : Stop → Prop) (c : Config) (event : Event) :
    Keeps (fun p : Progress => I p.disk) (fun _ => True) E (Task.detail c event) := by
  intro p hp
  obtain ⟨events, hrun⟩ := exists_runFrom_detail c event p
  rw [hrun]
  exact ⟨trivial, hp⟩

theorem keeps_textsBelow (d : Disk) (folder : Path) :
    Keeps (· = d) (fun _ => True) (fun _ => True) (textsBelow folder) := by
  rintro D rfl
  rw [textsBelow, runFrom_bind, runFrom_locate]
  cases D.locate folder with
  | error trouble => exact ⟨trivial, rfl⟩
  | ok place => exact ⟨trivial, rfl⟩

/-- Loading the fragments only reads, and it is refused only where their folder is missing. -/
theorem keeps_readFragments (c : Config) (d : Disk) :
    Keeps (fun p : Progress => p.disk = d) (fun _ => True) (IsLoadStop c d) (readFragments c) := by
  have htexts : ∀ folder, Keeps (fun p : Progress => p.disk = d) (fun _ => True) (IsLoadStop c d)
      (Task.onDisk (textsBelow folder)) :=
    fun folder => (keeps_onDisk (keeps_textsBelow d folder)).mono (fun _ h => h) fun _ h => .inl h
  have hload : ∀ texts more, Keeps (fun p : Progress => p.disk = d) (fun _ => True)
      (IsLoadStop c d) (do
        Task.detail c (.loaded (texts.length + more.length))
        pure (((Store.new c.imports c.content).putFiles c.imports texts).putFiles c.content more)) :=
    fun _ _ => (keeps_detail (· = d) _ c _).bind fun _ _ => keeps_pure trivial
  unfold readFragments
  refine keeps_get.bind fun state hstate => ?_
  dsimp only
  split
  · rename_i hmissing
    rw [hstate, Bool.not_eq_true'] at hmissing
    exact (keeps_throw (P := fun _ => False) (.inr ⟨hmissing, rfl⟩)).bind fun _ h => h.elim
  · refine (htexts _).bind fun texts _ => keeps_get.bind fun state _ => ?_
    split
    · exact (htexts _).bind fun more _ => hload texts more
    · rw [pure_bind]
      exact hload texts []

/-- Where the contents are the imports, their files are loaded and nothing else. -/
theorem runFrom_readFragments {c : Config} {p : Progress} (place : List Text)
    (hsame : c.content = c.imports) (hplace : p.disk.locate c.importsFolder = .ok place)
    (hfolder : p.disk.get? place = some .folder) :
    (runFrom (readFragments c) p).1 = .ok ((Store.new c.imports c.content).putFiles c.imports
      ((p.disk.filesBelow place).map fun x => (join ['/'] x.1, Exclusion.textOf x.2))) := by
  have hthere : p.disk.isFolder c.importsFolder = true := by
    rw [isFolder, at?, hplace]
    exact beq_iff_eq.2 hfolder
  have htexts : runFrom (textsBelow c.importsFolder) p.disk
      = (.ok ((p.disk.filesBelow place).map fun x => (join ['/'] x.1, Exclusion.textOf x.2)),
        p.disk) := by
    rw [textsBelow, runFrom_bind, runFrom_locate, hplace]
    rfl
  generalize (p.disk.filesBelow place).map
    (fun x => (join ['/'] x.1, Exclusion.textOf x.2)) = texts at htexts ⊢
  obtain ⟨events, hdetail⟩ := exists_runFrom_detail c (.loaded (texts.length + 0)) p
  rw [readFragments, runFrom_get_bind]
  dsimp only
  rw [hthere, Bool.not_true, if_neg Bool.false_ne_true, runFrom_bind, runFrom_onDisk_of_ok htexts]
  dsimp only
  rw [runFrom_get_bind]
  simp only [hsame, bne_self_eq_false, Bool.false_and, Bool.false_eq_true, if_false, pure_bind]
  rw [runFrom_bind]
  simp only [List.length_nil, hdetail]
  rfl

/-- An empty folder of fragments is loaded as a store without fragments. -/
theorem runFrom_readFragments_of_empty {c : Config} {p : Progress} (place : List Text)
    (hsame : c.content = c.imports) (hplace : p.disk.locate c.importsFolder = .ok place)
    (hfolder : p.disk.get? place = some .folder) (hempty : ∀ x ∈ p.disk.filesBelow place, False) :
    (runFrom (readFragments c) p).1 = .ok (.new c.imports c.content) := by
  rw [runFrom_readFragments place hsame hplace hfolder, List.eq_nil_iff_forall_not_mem.2 hempty]
  rfl

end Stencil.Site
