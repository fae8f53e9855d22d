import Mathlib.Data.Set.Card
import Stencil.Proofs.Disk.Action
import Stencil.Proofs.Path.Join
import Stencil.Proofs.Table
import Stencil.Site.Build

set_option autoImplicit false

/-! # Looking fragments up

A fragment is stored under the normal form of its path below the base, and a reference is looked
up under that of the path it is completed to. Both are the segments of the base with the names of
the file behind them, so no two files share a key (`Fragment.fileKey_inj`), and a reference finds a
file whichever way it goes there (`Fragment.Refers.key_eq`). A folder that is loaded is therefore
found whole, and nothing else is (`load_finds`).
-/

namespace Stencil

open Text

namespace Fragment

variable {ref ext base stem : Text} {s t : List Text}

/-- The key of a file, by the names that lead to it below the folder of the base. -/
def fileKey (base : Text) (s : List Text) : Text :=
  Path.normalize (Path.joinTexts base (join ['/'] s))

/-- The references that stand for a file: its path, with any slashes in front and any detours on
the way, or that path without the extension. -/
inductive Refers (ext : Text) (s : List Text) : Text → Prop
  | path {t : List Text} (slashes : Nat) (hext : endsWith (join ['/'] s) ext = true)
      (h : Path.Detour s t) : Refers ext s (List.replicate slashes (char '/') ++ join [char '/'] t)
  | stem {t : List Text} {stem : Text} (slashes : Nat) (hstem : join ['/'] t = stem ++ ext)
      (hext : endsWith stem ext = false) (h : Path.Detour s t) :
      Refers ext s (List.replicate slashes (char '/') ++ stem)

/-! ## Keys -/

theorem fileKey_inj (hs : ∀ name ∈ s, Path.IsName name) (ht : ∀ name ∈ t, Path.IsName name)
    (h : fileKey base s = fileKey base t) : s = t := by
  have hparts : ∀ {s : List Text}, (∀ name ∈ s, Path.IsName name) →
      Path.normalSegments (fileKey base s) = Path.normalSegments base ++ s := by
    intro s hs
    rw [fileKey, (Path.normalize_parts _).2, Path.normalSegments_joinTexts_names base hs]
  have hsegments := hparts hs
  rw [h, hparts ht] at hsegments
  exact (List.append_cancel_left hsegments).symm

/-- The slashes in front of a reference do not count. -/
theorem key_eq_of_file (ht : ∀ segment ∈ t, segment ≠ [] ∧ char '/' ∉ segment) (n : Nat)
    (hfile : (if endsWith ref ext then ref else ref ++ ext)
      = List.replicate n (char '/') ++ join [char '/'] t) :
    key ref ext base = fileKey base t := by
  have hdrop : (List.replicate n (char '/') ++ join [char '/'] t).dropWhile
      (· == char '/') = join [char '/'] t := by
    have hsplit := List.takeWhile_append_dropWhile (p := (· == char '/')) (l := join [char '/'] t)
    rw [Path.takeWhile_slash (Path.head?_join_ne ht), List.nil_append] at hsplit
    rw [List.dropWhile_append_of_pos (by simp), hsplit]
  unfold key
  rw [hfile]
  show Path.normalize (Path.joinTexts base ((List.replicate n (char '/') ++ _).dropWhile _)) = _
  rw [hdrop, fileKey]

/-- A detour ends as the plain path does. -/
theorem suffix_join_of_detour (hext : char '/' ∉ ext) (h : Path.Detour s t)
    (hs : ext <:+ join ['/'] s) : ext <:+ join ['/'] t := by
  have hlast := h.getLast?
  rcases List.eq_nil_or_concat' s with rfl | ⟨front, last, rfl⟩
  · rwa [List.getLast?_eq_none_iff.1 hlast]
  · rcases List.eq_nil_or_concat' t with rfl | ⟨front', last', rfl⟩
    · simp at hlast
    · rw [suffix_join_iff hext] at hs ⊢
      have hsame : last' = last := by simpa using hlast
      rwa [hsame]

/-- **A reference that stands for a file has its key**, from every base. -/
theorem Refers.key_eq (hext : char '/' ∉ ext) (hs : ∀ name ∈ s, Path.IsName name)
    (h : Refers ext s ref) : key ref ext base = fileKey base s := by
  have htext : ∀ segment ∈ s, segment ≠ [] ∧ char '/' ∉ segment :=
    fun name hmem => (hs name hmem).text
  cases h with
  | path n hends hdetour =>
      rw [key_eq_of_file (hdetour.text htext) n, fileKey, hdetour.normalize_joinTexts htext, fileKey]
      refine if_pos ?_
      rw [endsWith_iff, suffix_replicate_append_iff hext]
      exact suffix_join_of_detour hext hdetour ((endsWith_iff _ _).1 hends)
  | stem n hstem hends hdetour =>
      rw [key_eq_of_file (hdetour.text htext) n, fileKey, hdetour.normalize_joinTexts htext, fileKey]
      rw [hstem, ← List.append_assoc]
      refine if_neg ?_
      rw [endsWith_iff, suffix_replicate_append_iff hext, ← endsWith_iff, hends]
      exact Bool.false_ne_true

theorem normalize_key : Path.normalize (key ref ext base) = key ref ext base :=
  Path.normalize_normalize _

end Fragment

/-! ## What is stored -/

namespace Store

theorem putFiles_eq (store : Store) (base : Text) (files : List (Text × Text)) :
    store.putFiles base files = { store with
      fragments := files.foldl
        (fun t x => Table.set (Path.normalize (Path.joinTexts base x.1)) x.2 t) store.fragments } := by
  induction files generalizing store with
  | nil => rfl
  | cons x files ih =>
      show (store.put (Path.joinTexts base x.1) x.2).putFiles base files = _
      rw [ih]
      rfl

end Store

/-- The texts of the files below a place, each under the key of its file. -/
def Disk.fragmentsBelow (d : Disk) (place : List Text) (base : Text) : Table :=
  (d.filesBelow place).map fun x => (Fragment.fileKey base x.1, Site.Exclusion.textOf x.2)

section

variable {d : Disk} {folder : Path} {place s : List Text} {bytes : List UInt8}

theorem runFrom_textsBelow (hfolder : d.locate folder = .ok place) :
    runFrom (Site.textsBelow folder) d = (.ok ((d.filesBelow place).map fun x =>
      (join ['/'] x.1, Site.Exclusion.textOf x.2)), d) := by
  rw [Site.textsBelow, runFrom_bind_of_ok (Disk.Action.runFrom_locate_of_ok hfolder)]
  rfl

/-- The files listed below a folder are those that stand there. -/
theorem mem_filesBelow_iff (h : d.IsTree) (hfiles : ∀ x ∈ d.filesBelow place, x.1 ≠ []) :
    (s, bytes) ∈ d.filesBelow place ↔ d.get? (place ++ s) = some (.file bytes) := by
  constructor
  · intro hmem
    have hne : place ++ s ≠ [] := fun hnil => hfiles _ hmem (List.append_eq_nil_iff.1 hnil).2
    exact (h.get?_eq_some_iff hne).2 (Disk.mem_filesBelow.1 hmem)
  · intro hget
    have hne : place ++ s ≠ [] := by
      intro hnil
      rw [hnil] at hget
      cases hget
    exact Disk.mem_filesBelow.2 ((h.get?_eq_some_iff hne).1 hget)

theorem ncard_files (h : d.IsTree) (hfiles : ∀ x ∈ d.filesBelow place, x.1 ≠ []) :
    {s | ∃ bytes, d.get? (place ++ s) = some (.file bytes)}.ncard = (d.filesBelow place).length := by
  have hset : {s | ∃ bytes, d.get? (place ++ s) = some (.file bytes)}
      = (((d.filesBelow place).map Prod.fst).toFinset : Set (List Text)) := by
    ext s
    rw [List.coe_toFinset, Set.mem_ofPred_eq, Set.mem_ofPred_eq, List.mem_map]
    constructor
    · rintro ⟨bytes, hget⟩
      exact ⟨(s, bytes), (mem_filesBelow_iff h hfiles).2 hget, rfl⟩
    · rintro ⟨⟨s, bytes⟩, hrow, rfl⟩
      exact ⟨bytes, (mem_filesBelow_iff h hfiles).1 hrow⟩
  rw [hset, Set.ncard_coe_finset, List.toFinset_card_of_nodup (h.nodup_filesBelow place),
    List.length_map]

/-! ## The fragments below a folder -/

section

variable (h : d.IsTree)
  (hfiles : ∀ x ∈ d.filesBelow place, x.1 ≠ [] ∧ ∀ name ∈ x.1, Path.IsName name) (base : Text)

include h hfiles

theorem nodup_names_fragmentsBelow : (Table.names (d.fragmentsBelow place base)).Nodup := by
  have hways := h.nodup_filesBelow place
  rw [Table.names, Disk.fragmentsBelow, List.map_map]
  refine List.Nodup.map_on (fun x hx y hy heq => ?_) hways.of_map
  have hway := Fragment.fileKey_inj (hfiles x hx).2 (hfiles y hy).2 heq
  exact List.inj_on_of_nodup_map hways hx hy hway

/-- A new store takes the fragments one by one, since no two have one key. -/
theorem putFiles_new_eq :
    (Store.new base []).putFiles base ((d.filesBelow place).map fun x =>
      (join ['/'] x.1, Site.Exclusion.textOf x.2)) = ⟨base, base, d.fragmentsBelow place base⟩ := by
  have hself := Table.ofPairs_eq_self (nodup_names_fragmentsBelow h hfiles base)
  rw [Store.putFiles_eq, ← hself, Disk.fragmentsBelow, Table.ofPairs, List.foldl_map,
    List.foldl_map]
  rfl

theorem get?_fragmentsBelow (hfile : d.get? (place ++ s) = some (.file bytes)) :
    Table.get? (d.fragmentsBelow place base) (Fragment.fileKey base s)
      = some (Site.Exclusion.textOf bytes) := by
  rw [Table.get?_eq_some_iff (nodup_names_fragmentsBelow h hfiles base)]
  refine List.mem_map.2 ⟨(s, bytes), ?_, rfl⟩
  exact (mem_filesBelow_iff h fun x hx => (hfiles x hx).1).2 hfile

theorem get?_fragmentsBelow_eq_none {key : Text}
    (hkey : ∀ s bytes, d.get? (place ++ s) = some (.file bytes) → key ≠ Fragment.fileKey base s) :
    Table.get? (d.fragmentsBelow place base) key = none := by
  by_contra hget
  obtain ⟨text, hget⟩ := Option.ne_none_iff_exists'.1 hget
  obtain ⟨⟨s, bytes⟩, hrow, heq⟩ := List.mem_map.1 (Table.mem_of_get? hget)
  have hfile := (mem_filesBelow_iff h fun x hx => (hfiles x hx).1).1 hrow
  exact hkey s bytes hfile (congrArg Prod.fst heq).symm

end

/-- **A folder that is loaded is found whole, and nothing else is.** Each file below it is one
fragment, found under its path below the base and by every reference that stands for it; a
reference whose key is that of no file finds nothing. -/
theorem load_finds (h : d.IsTree) (hfolder : d.locate folder = .ok place)
    (hfiles : ∀ x ∈ d.filesBelow place, x.1 ≠ [] ∧ ∀ name ∈ x.1, Path.IsName name) (base : Text) :
    ∃ texts store, runFrom (Site.textsBelow folder) d = (.ok texts, d) ∧
      store = (Store.new base []).putFiles base texts ∧
      texts.length = {s | ∃ bytes, d.get? (place ++ s) = some (.file bytes)}.ncard ∧
      store.size = {s | ∃ bytes, d.get? (place ++ s) = some (.file bytes)}.ncard ∧
      (∀ s bytes, d.get? (place ++ s) = some (.file bytes) →
        store.get? (Path.joinTexts base (join ['/'] s)) = some (Site.Exclusion.textOf bytes) ∧
        (∀ ref, Fragment.Refers Fragment.htmlExtension s ref →
          store.html? ref = some (Site.Exclusion.textOf bytes)) ∧
        (∀ ref, Fragment.Refers Fragment.markdownExtension s ref →
          store.markdown? ref = some (Site.Exclusion.textOf bytes))) ∧
      (∀ ref, (∀ s bytes, d.get? (place ++ s) = some (.file bytes) →
          Fragment.key ref Fragment.htmlExtension base ≠ Fragment.fileKey base s) →
        store.html? ref = none) ∧
      (∀ ref, (∀ s bytes, d.get? (place ++ s) = some (.file bytes) →
          Fragment.key ref Fragment.markdownExtension base ≠ Fragment.fileKey base s) →
        store.markdown? ref = none) := by
  have hlength := ncard_files h fun x hx => (hfiles x hx).1
  have hnames : ∀ {s bytes}, d.get? (place ++ s) = some (.file bytes) →
      ∀ name ∈ s, Path.IsName name := fun hget =>
    (hfiles _ ((mem_filesBelow_iff h fun x hx => (hfiles x hx).1).2 hget)).2
  -- A reference is looked up under its key, which is a normal form already.
  have hlookup : ∀ ref ext, Store.get? ⟨base, base, d.fragmentsBelow place base⟩
      (Fragment.key ref ext base)
        = Table.get? (d.fragmentsBelow place base) (Fragment.key ref ext base) := by
    intro ref ext
    rw [Store.get?, Fragment.normalize_key]
  have hrefers : ∀ {s bytes ref} ext, char '/' ∉ ext → d.get? (place ++ s) = some (.file bytes) →
      Fragment.Refers ext s ref →
      Table.get? (d.fragmentsBelow place base) (Fragment.key ref ext base)
        = some (Site.Exclusion.textOf bytes) := by
    intro s bytes ref ext hext hfile href
    rw [href.key_eq hext (hnames hfile)]
    exact get?_fragmentsBelow h hfiles base hfile
  refine ⟨_, _, runFrom_textsBelow hfolder, rfl, ?_⟩
  rw [putFiles_new_eq h hfiles base]
  refine ⟨?_, ?_, fun s bytes hfile => ⟨?_, fun ref href => ?_, fun ref href => ?_⟩,
    fun ref hkey => ?_, fun ref hkey => ?_⟩
  · rw [hlength, List.length_map]
  · rw [hlength]
    exact List.length_map _
  · exact get?_fragmentsBelow h hfiles base hfile
  · exact (hlookup ref _).trans (hrefers _ (by decide) hfile href)
  · exact (hlookup ref _).trans (hrefers _ (by decide) hfile href)
  · exact (hlookup ref _).trans (get?_fragmentsBelow_eq_none h hfiles base hkey)
  · exact (hlookup ref _).trans (get?_fragmentsBelow_eq_none h hfiles base hkey)

end

/-- A folder of fragments, one of which ends in an extension twice. -/
def partsDisk : Disk where
  here := []
  entries := [("site", .folder), ("site/parts", .folder), ("site/parts/nav.html", .file [0x61]),
    ("site/parts/blog", .folder), ("site/parts/blog/card.md", .file [0x62]),
    ("site/parts/blog/list.html.html", .file [0x63])].map
      fun (path, entry) => (splitOn '/' path.text, entry)

/-- The base leads up and into a folder and back; the references have slashes in front, go into a
folder and back, and leave the extension out. -/
theorem load_finds_partsDisk :
    partsDisk.IsTree ∧
      partsDisk.locate ⟨1, ["site".text, "parts".text]⟩
        = .ok ["site".text, "parts".text] ∧
      (∀ x ∈ partsDisk.filesBelow ["site".text, "parts".text],
        x.1 ≠ [] ∧ ∀ name ∈ x.1, Path.IsName name) ∧
      ∃ texts store,
        runFrom (Site.textsBelow ⟨1, ["site".text, "parts".text]⟩) partsDisk
          = (.ok texts, partsDisk) ∧
        store = (Store.new "../x/../parts/".text []).putFiles "../x/../parts/".text texts ∧
        texts.length = store.size ∧
        store.html? "//blog/../nav".text = some "a".text ∧
        store.markdown? "./blog/card.md".text = some "b".text ∧
        store.html? "blog/list.html".text = none := by
  have hdisk : partsDisk.WellFormed := by decide +kernel
  have hfolder : partsDisk.locate ⟨1, ["site".text, "parts".text]⟩
      = .ok ["site".text, "parts".text] := by decide +kernel
  have hfiles : ∀ x ∈ partsDisk.filesBelow ["site".text, "parts".text],
      x.1 ≠ [] ∧ ∀ name ∈ x.1, Path.IsName name :=
    Disk.forall_mem_filesBelow.2 (by decide +kernel)
  obtain ⟨texts, store, hrun, hstore, hcount, hsize, hfound, hmissing, -⟩ :=
    load_finds hdisk.toIsTree hfolder hfiles "../x/../parts/".text
  have hnav : Fragment.Refers Fragment.htmlExtension ["nav.html".text] "//blog/../nav".text := by
    have hway : Path.Detour ["nav.html".text] ["blog".text, "..".text, "nav.html".text] :=
      .back (.refl : Path.Detour _ ([] ++ ["nav.html".text])) (by decide) (by decide)
    exact .stem 2 (by decide : _ = "blog/../nav".text ++ Fragment.htmlExtension) (by decide) hway
  have hcard : Fragment.Refers Fragment.markdownExtension ["blog".text, "card.md".text]
      "./blog/card.md".text := by
    have hway : Path.Detour ["blog".text, "card.md".text]
        [".".text, "blog".text, "card.md".text] :=
      .dot (.refl : Path.Detour _ ([] ++ ["blog".text, "card.md".text])) (by decide)
    exact .path 0 (by decide) hway
  refine ⟨hdisk.toIsTree, hfolder, hfiles, texts, store, hrun, hstore, hcount.trans hsize.symm,
    ?_, ?_, hmissing _ fun s bytes hfile => ?_⟩
  · exact (hfound _ [0x61] (by decide +kernel)).2.1 _ hnav
  · exact (hfound _ [0x62] (by decide +kernel)).2.2 _ hcard
  · have hkeys : ∀ x ∈ partsDisk.filesBelow ["site".text, "parts".text],
        Fragment.key "blog/list.html".text Fragment.htmlExtension "../x/../parts/".text
          ≠ Fragment.fileKey "../x/../parts/".text x.1 :=
      Disk.forall_mem_filesBelow.2 (by decide +kernel)
    exact hkeys _ ((mem_filesBelow_iff hdisk.toIsTree fun x hx => (hfiles x hx).1).2 hfile)

end Stencil
