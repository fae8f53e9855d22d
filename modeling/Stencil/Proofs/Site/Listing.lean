import Mathlib.Data.List.Infix
import Mathlib.Data.List.Lex
import Stencil.Proofs.Site.Walk
import Stencil.Proofs.Text.Search

set_option autoImplicit false

/-! # The list of the files of a site

Two kinds of exclusion cut a walk short: an excluded name drops whatever begins with it, at every
depth, and an excluded path drops what stands at it and below. What is left is said of the way to
a file (`Exclusion.Keeps`): the walk lists the files whose way is kept, each once, in the order of
their segments (`files_lists`). A folder comes before a name that goes on where its own ends,
whatever character follows, which is not the order of the paths as texts.
-/

namespace Stencil.Site

open Text

/-- Nothing on the way to a file is left out: no name in it begins with an excluded one, and no
folder that leads to it, nor the file itself, stands at an excluded path. -/
structure Exclusion.Keeps (e : Exclusion) (s : List Text) : Prop where
  names : ∀ name ∈ s, ∀ excluded ∈ e.names, ¬ excluded <+: name
  paths : ∀ t, t <+: s → t ≠ [] → join ['/'] t ∉ e.folders

theorem Exclusion.skips_concat (e : Exclusion) (folder : List Text) (name : Text) :
    e.skips (folder ++ [name]) = true ↔
      (∃ excluded ∈ e.names, excluded <+: name) ∨ join ['/'] (folder ++ [name]) ∈ e.folders := by
  rw [skips, Bool.or_eq_true, List.any_eq_true, List.elem_iff]
  simp only [List.getLast?_append, List.getLast?_singleton, Option.some_or, Option.getD_some,
    startsWith_iff]

/-- The way to a file is kept when the walk is stopped nowhere on it. -/
theorem Exclusion.keeps_iff {e : Exclusion} {s : List Text} :
    e.Keeps s ↔ ∀ t, t <+: s → t ≠ [] → ¬ e.skips t = true := by
  constructor
  · intro h t ht hne hskips
    obtain ⟨folder, name, rfl⟩ := (List.eq_nil_or_concat' t).resolve_left hne
    have hname : name ∈ s := ht.subset (by simp)
    rcases (e.skips_concat folder name).1 hskips with ⟨excluded, hmem, hpre⟩ | hpath
    · exact h.names name hname excluded hmem hpre
    · exact h.paths _ ht hne hpath
  · intro h
    constructor
    · intro name hname excluded hmem hpre
      -- The walk is stopped at the first place of the name on the way.
      obtain ⟨front, rest, rfl⟩ := List.append_of_mem hname
      have hway : front ++ [name] <+: front ++ name :: rest := ⟨rest, by simp⟩
      refine h _ hway (by simp) ((e.skips_concat front name).2 ?_)
      exact .inl ⟨excluded, hmem, hpre⟩
    · intro t ht hne hpath
      obtain ⟨folder, name, rfl⟩ := (List.eq_nil_or_concat' t).resolve_left hne
      exact h _ ht hne ((e.skips_concat folder name).2 (.inr hpath))

instance (e : Exclusion) (s : List Text) : Decidable (e.Keeps s) :=
  decidable_of_iff (∀ t ∈ s.inits, t ≠ [] → ¬ e.skips t = true) (by
    rw [Exclusion.keeps_iff]
    exact forall_congr' fun t => by rw [List.mem_inits])

section

variable {d : Disk} {root folder s t : List Text} {e : Exclusion} {n : Nat}

/-! ## Which files -/

theorem mem_files_iff (h : d.IsTree) (hroot : d.get? root = some .folder) :
    s ∈ files d root e ↔ (∃ bytes, d.get? (root ++ s) = some (.file bytes)) ∧ e.Keeps s := by
  rw [files_eq_walkFrom, Exclusion.keeps_iff]
  constructor
  · intro hs
    obtain ⟨-, hfile, hkept⟩ := isReached_of_mem_walkFrom h hs
    refine ⟨hfile, fun t ht hne => ?_⟩
    exact hkept t ht fun hnil => hne (List.prefix_nil.1 hnil)
  · rintro ⟨hfile, hkept⟩
    have hreached : IsReached d root e [] s := by
      refine ⟨List.nil_prefix, hfile, fun t ht hnil => hkept t ht fun heq => hnil ?_⟩
      exact List.prefix_nil.2 heq
    obtain ⟨bytes, hbytes⟩ := hfile
    have hne : s ≠ [] := by
      rintro rfl
      rw [List.append_nil, hroot] at hbytes
      cases hbytes
    have hheight := Disk.length_le_height hbytes
    rw [List.length_append] at hheight
    refine hreached.mem_walkFrom h hne ?_
    rw [List.length_nil]
    omega

/-- **A walk lists exactly the files that are kept, each once, in order.** A file is listed when no
name on the way to it begins with an excluded name and no path that leads to it is excluded. The
order is that of the segments, compared one by one. -/
theorem files_lists (h : d.IsTree) (hroot : d.get? root = some .folder) :
    (∀ s, s ∈ files d root e ↔ (∃ bytes, d.get? (root ++ s) = some (.file bytes)) ∧ e.Keeps s) ∧
      (∀ s ∈ files d root e, (files d root e).count s = 1) ∧
      (files d root e).Pairwise (· < ·) := by
  have hsorted : (files d root e).Pairwise (· < ·) := by
    rw [files_eq_walkFrom]
    exact pairwise_walkFrom h
  have hnodup : (files d root e).Nodup := hsorted.imp fun hab => ne_of_lt hab
  refine ⟨fun s => mem_files_iff h hroot, fun s hs => ?_, hsorted⟩
  exact List.count_eq_one_of_mem hnodup hs

end

/-- A site in which a folder, a file and an excluded folder share the front of their names. -/
def forkedSite : Disk where
  here := []
  entries := [("site", .folder), ("site/blog-old.html", .file []), ("site/drafts", .folder),
    ("site/drafts/a.html", .file []), ("site/blog", .folder), ("site/blog/drafts", .folder),
    ("site/blog/drafts/a.html", .file []), ("site/blog/z.html", .file []),
    ("site/blog/.gitkeep", .file [])].map fun (path, entry) => (splitOn '/' path.text, entry)

theorem files_lists_forkedSite :
    forkedSite.IsTree ∧ forkedSite.get? ["site".text] = some .folder ∧
      ["drafts".text, "a.html".text] ∈ files forkedSite ["site".text]
        ⟨[".git".text], ["blog/drafts".text]⟩ ∧
      ["blog".text, "drafts".text, "a.html".text] ∉ files forkedSite ["site".text]
        ⟨[".git".text], ["blog/drafts".text]⟩ ∧
      ["blog".text, ".gitkeep".text] ∉ files forkedSite ["site".text]
        ⟨[".git".text], ["blog/drafts".text]⟩ ∧
      (files forkedSite ["site".text] ⟨[".git".text], ["blog/drafts".text]⟩).Pairwise
        (· < ·) := by
  have hsite : forkedSite.WellFormed := by decide +kernel
  have hroot : forkedSite.get? ["site".text] = some .folder := by decide +kernel
  obtain ⟨hmem, -, hsorted⟩ := files_lists (e := ⟨[".git".text], ["blog/drafts".text]⟩)
    hsite.toIsTree hroot
  refine ⟨hsite.toIsTree, hroot, (hmem _).2 ⟨⟨[], by decide +kernel⟩, by decide +kernel⟩,
    fun h => ?_, fun h => ?_, hsorted⟩
  · exact ((hmem _).1 h).2.paths ["blog".text, "drafts".text] (by decide +kernel)
      (by decide +kernel) (by decide +kernel)
  · exact ((hmem _).1 h).2.names ".gitkeep".text (by decide +kernel) ".git".text
      (by decide +kernel) (by decide +kernel)

end Stencil.Site
