import Stencil.Proofs.Disk.Action
import Stencil.Proofs.Path.Normal
import Stencil.Site.Build

set_option autoImplicit false

/-! # The output folder made anew

When the output folder has been wiped, it is an empty folder, and the disk around it is what it
was, but for the folders on the way (`isWiped_of_run`). The current folder may be wiped with it; a
relative path then leads nowhere, since it would have to leave a folder that is gone.
-/

namespace Stencil.Site

open Text Disk Action

/-- The folders of a build are settled: the root, and the output folder as an empty one. -/
structure IsWiped (c : Config) (root out : List Text) (d W : Disk) : Prop where
  tree : W.IsTree
  grows : GrowsAround out d W
  root_at : W.locate c.root = .ok root
  out_at : W.locate c.outputFolder = .ok out
  folder : W.get? out = some .folder
  empty : ∀ t, t ≠ [] → W.get? (out ++ t) = none

section

variable {c : Config} {d d₁ W : Disk} {root out segments : List Text}

/-- What holds while the folders on the way to the output folder are made: the disk is a tree
with the current folder in it, unless that was wiped. -/
structure IsMaking (slashes : Nat) (out : List Text) (d₁ D : Disk) : Prop where
  grows : Grows d₁ D
  tree : (D.IsTree ∧ (slashes = 0 → D.get? D.here = some .folder)) ∨
    slashes = 0 ∧ out <+: D.here

theorem isMaking_step {slashes : Nat} {D D' : Disk} (h : IsMaking slashes out d₁ D)
    (hrun : runFrom (makeFolder ⟨slashes, segments⟩) D = (.ok (), D')) :
    IsMaking slashes out d₁ D' := by
  obtain ⟨place, hplace, hnone, rfl⟩ := of_runFrom_makeFolder hrun
  have hgrows := grows_put_folder hnone
  refine ⟨h.grows.trans hgrows, ?_⟩
  rcases h.tree with ⟨htree, hhere⟩ | hgone
  · obtain ⟨folder, name, rfl, hfolder, hname⟩ :=
      htree.exists_folder_of_locate hhere hplace hnone
    exact .inl ⟨htree.put hfolder hname (.inr rfl), fun hslashes =>
      hgrows.eq_of_some (hhere hslashes)⟩
  · exact .inr hgone

/-- A folder that is made anew in a tree is an empty one. -/
theorem isWiped_put {D : Disk} (htree : D.IsTree)
    (hhere : c.outputFolder.slashes = 0 → D.get? D.here = some .folder)
    (hplace : D.locate c.outputFolder = .ok out) (hnone : D.get? out = none)
    (hroot : (D.put out .folder).locate c.root = .ok root) :
    IsWiped c root out D (D.put out .folder) := by
  obtain ⟨folder, name, rfl, hfolder, hname⟩ := htree.exists_folder_of_locate hhere hplace hnone
  have hgrows := grows_put_folder hnone
  have hplace' : (D.put (folder ++ [name]) .folder).locate c.outputFolder = .ok (folder ++ [name]) :=
    locate_mono hgrows.here (fun _ => hgrows.eq_of_some) hplace
  refine ⟨htree.put hfolder hname (.inr rfl), ⟨rfl, fun q _ => hgrows.get? q⟩, hroot, hplace', ?_,
    fun t ht => ?_⟩
  · rw [get?_put (by simp), if_pos rfl]
  · rw [get?_put (by simp), if_neg (by simpa using ht), htree.get?_append_eq_none hnone]

/-- A new output folder stands in a tree: had the current folder been wiped, the path to the
output folder would not lead out of it. -/
theorem isWiped_of_makeFolder {D : Disk} (h : IsMaking c.root.slashes out d₁ D)
    (hpath : c.outputFolder = c.root.below segments) (hout : ¬ out <+: root)
    (hroot : c.root.resolve D.here = root) (houtput : c.outputFolder.resolve D.here = out)
    (hrun : runFrom (makeFolder c.outputFolder) D = (.ok (), W)) :
    IsWiped c root out D W ∧ D.get? out = none := by
  obtain ⟨place, hplace, hnone, rfl⟩ := of_runFrom_makeFolder hrun
  obtain rfl : out = place := houtput.symm.trans (resolve_eq_of_locate hplace)
  obtain ⟨at_, hroot_at, -⟩ := locate_of_locate_below (hpath ▸ hplace)
  obtain rfl : root = at_ := hroot.symm.trans (resolve_eq_of_locate hroot_at)
  have hslashes : c.outputFolder.slashes = c.root.slashes := by rw [hpath, Path.below]
  rcases h.tree with ⟨htree, hhere⟩ | ⟨hrelative, hgone⟩
  · have hgrows := grows_put_folder hnone
    have hroot_at' : (D.put out .folder).locate c.root = .ok root :=
      locate_mono hgrows.here (fun _ => hgrows.eq_of_some) hroot_at
    exact ⟨isWiped_put htree (fun h => hhere (hslashes ▸ h)) hplace hnone hroot_at', hnone⟩
  · rw [Disk.locate, if_pos hrelative] at hroot_at
    exact absurd (prefix_of_foldlM_step hnone hroot_at hgone) hout

/-- What stands at the output folder is removed, and it must be a folder. -/
theorem exists_removed (hrun : runFrom (wipeOutput c) d = (.ok (), W)) :
    ∃ d₁, runFrom (makeFolders false c.outputFolder) d₁ = (.ok (), W) ∧
      (d₁ = d ∨ d.get? (c.outputFolder.resolve d.here) = some .folder ∧
        d₁ = d.erase (c.outputFolder.resolve d.here)) := by
  rw [wipeOutput, runFrom_get_bind] at hrun
  dsimp only at hrun
  by_cases hhas : d.has c.outputFolder = true
  · rw [if_pos hhas] at hrun
    obtain ⟨_, d₁, hremove, hrun⟩ := runFrom_bind_eq_ok.1 hrun
    cases hplace : d.locate c.outputFolder with
    | error trouble =>
        rw [has, at?, hplace] at hhas
        cases hhas
    | ok place =>
        obtain ⟨hfolder, rfl⟩ := of_runFrom_removeFolder hplace hremove
        rw [resolve_eq_of_locate hplace]
        exact ⟨_, hrun, .inr ⟨hfolder, rfl⟩⟩
  · rw [if_neg hhas] at hrun
    exact ⟨d, hrun, .inl rfl⟩

theorem isMaking_of_removed (hd : d.WellFormed) (hout : out ≠ [])
    (hd₁ : d₁ = d ∨ d.get? out = some .folder ∧ d₁ = d.erase out) (slashes : Nat) :
    IsMaking slashes out d₁ d₁ := by
  refine ⟨.refl d₁, ?_⟩
  rcases hd₁ with rfl | ⟨-, rfl⟩
  · exact .inl ⟨hd.toIsTree, fun _ => hd.here_folder⟩
  · by_cases hgone : slashes = 0 ∧ out <+: d.here
    · exact .inr hgone
    · refine .inl ⟨hd.toIsTree.erase hout, fun hslashes => ?_⟩
      rw [here_erase, get?_erase hout, if_neg fun hpre => hgone ⟨hslashes, hpre⟩]
      exact hd.here_folder

/-- Around the output folder, wiping goes from one disk to the next by adding folders. -/
theorem growsAround_of_removed {D : Disk} (hne : out ≠ [])
    (hd₁ : d₁ = d ∨ d.get? out = some .folder ∧ d₁ = d.erase out) (hgrows : Grows d₁ D)
    (hnone : D.get? out = none) (hwiped : IsWiped c root out D W) : GrowsAround out d W := by
  have hhere₁ : d₁.here = d.here := by
    rcases hd₁ with rfl | ⟨-, rfl⟩ <;> rfl
  refine ⟨hwiped.grows.here.trans (hgrows.here.trans hhere₁), fun q hq => ?_⟩
  by_cases hqout : q = out
  · subst hqout
    rcases hd₁ with rfl | ⟨hget, -⟩
    · exact .inr ⟨hgrows.none_of_none hnone, hwiped.folder⟩
    · exact .inl (hwiped.folder.trans hget.symm)
  · have hbelow : ¬ out <+: q := fun hpre => hqout (hq hpre)
    have hget₁ : d₁.get? q = d.get? q := by
      rcases hd₁ with rfl | ⟨-, rfl⟩
      · rfl
      · rw [get?_erase hne, if_neg hbelow]
    rw [← hget₁]
    rcases hwiped.grows.get? q hq with hW | ⟨hnoneD, hW⟩
    · rw [hW]
      exact hgrows.get? q
    · exact .inr ⟨hgrows.none_of_none hnoneD, hW⟩

/-- **Wiping leaves an empty output folder** and everything around it. -/
theorem isWiped_of_run (hd : d.WellFormed) (hpath : c.outputFolder = c.root.below segments)
    (hout : ¬ c.outputFolder.resolve d.here <+: c.root.resolve d.here)
    (hrun : runFrom (wipeOutput c) d = (.ok (), W)) :
    IsWiped c (c.root.resolve d.here) (c.outputFolder.resolve d.here) d W := by
  obtain ⟨d₁, hrun, hd₁⟩ := exists_removed hrun
  set out := c.outputFolder.resolve d.here with hout_def
  have hne : out ≠ [] := fun hnil => hout (hnil ▸ List.nil_prefix)
  have hhere₁ : d₁.here = d.here := by
    rcases hd₁ with rfl | ⟨-, rfl⟩ <;> rfl
  have hslashes : c.outputFolder.slashes = c.root.slashes := by rw [hpath, Path.below]
  rw [makeFolders, hslashes] at hrun
  obtain ⟨D, hmaking, hrun⟩ := exists_of_makeFoldersFrom (IsMaking c.root.slashes out d₁)
    isMaking_step (isMaking_of_removed hd hne hd₁ _) hrun
  have hhere : D.here = d.here := hmaking.grows.here.trans hhere₁
  have hfolder : c.outputFolder = ⟨c.root.slashes, c.outputFolder.segments⟩ := by rw [← hslashes]
  rw [← hfolder] at hrun
  obtain ⟨hwiped, hnone⟩ := isWiped_of_makeFolder hmaking hpath hout (by rw [hhere])
    (by rw [hhere]) hrun
  exact { hwiped with grows := growsAround_of_removed hne hd₁ hmaking.grows hnone hwiped }

/-- The same for an output folder that is given by an absolute path, once the root is found. -/
theorem isWiped_of_run_of_absolute (hd : d.WellFormed) (habsolute : c.outputFolder.slashes ≠ 0)
    (hne : c.outputFolder.resolve d.here ≠ []) (hrun : runFrom (wipeOutput c) d = (.ok (), W))
    (hroot : W.locate c.root = .ok root) :
    IsWiped c root (c.outputFolder.resolve d.here) d W := by
  obtain ⟨d₁, hrun, hd₁⟩ := exists_removed hrun
  set out := c.outputFolder.resolve d.here with hout_def
  rw [makeFolders] at hrun
  obtain ⟨D, hmaking, hrun⟩ := exists_of_makeFoldersFrom (IsMaking c.outputFolder.slashes out d₁)
    isMaking_step (isMaking_of_removed hd hne hd₁ _) hrun
  obtain ⟨place, hplace, hnone, rfl⟩ := of_runFrom_makeFolder hrun
  have hhere : D.here = d.here := by
    rw [hmaking.grows.here]
    rcases hd₁ with rfl | ⟨-, rfl⟩ <;> rfl
  obtain rfl : place = out := by
    rw [hout_def, ← hhere]
    exact (resolve_eq_of_locate hplace).symm
  have htree : D.IsTree := by
    rcases hmaking.tree with ⟨htree, -⟩ | ⟨hrelative, -⟩
    · exact htree
    · exact absurd hrelative habsolute
  have hwiped := isWiped_put htree (fun h => absurd h habsolute) hplace hnone hroot
  exact { hwiped with grows := growsAround_of_removed hne hd₁ hmaking.grows hnone hwiped }

end

end Stencil.Site
