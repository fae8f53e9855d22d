import Stencil.Proofs.Site.Copy

set_option autoImplicit false

/-! # Output folders that the walk may enter

Settings can give the output folder in a way that the walk does not leave out, by an absolute path
for one. The walk then comes to files that it has copied itself, and copies them again. Writing
still cannot fail: what stands in the output folder has a counterpart of its kind below the root,
which may lie in the output folder too (`Mirrors`), and writing a file of the site keeps this.

No copy is a page, so the pages that the walk finds are those it would have found on the disk it
started with (`exists_visit_hasWalked`).
-/

namespace Stencil

namespace Disk

variable {D : Disk} {q : List Text} {bytes : List UInt8}

theorem kind?_eq_true_iff : D.kind? q = some true ↔ D.get? q = some .folder := by
  rw [kind?]
  cases D.get? q with
  | none => simp
  | some entry => cases entry <;> simp

theorem kind?_eq_false_iff : D.kind? q = some false ↔ ∃ bytes, D.get? q = some (.file bytes) := by
  rw [kind?]
  cases D.get? q with
  | none => simp
  | some entry => cases entry <;> simp

theorem kind?_of_file (h : D.get? q = some (.file bytes)) : D.kind? q = some false :=
  kind?_eq_false_iff.2 ⟨bytes, h⟩

end Disk

namespace Site

open Text Disk Action

/-- The output folder can be written to, and what stands in it has a counterpart of its kind below
the root. -/
structure Mirrors (c : Config) (root out : List Text) (D : Disk) : Prop where
  tree : D.IsTree
  root_at : D.locate c.root = .ok root
  out_at : D.locate c.outputFolder = .ok out
  folder : D.get? out = some .folder
  kind : ∀ {s : List Text} {kind : Bool}, D.kind? (out ++ s) = some kind →
    D.kind? (root ++ s) = some kind

/-- A file has been written below a folder, and the folders on the way have been made. -/
structure Writes (out s : List Text) (bytes : List UInt8) (D D' : Disk) : Prop where
  tree : D'.IsTree
  here : D'.here = D.here
  get? : ∀ q, D'.get? q =
    if q = out ++ s then some (.file bytes)
    else if out <+: q ∧ q <+: out ++ s then some .folder
    else D.get? q

section

variable {c : Config} {e : Exclusion} {root out folder s q : List Text} {d W D D' D₀ : Disk}
  {l : List (List Text)} {found : Found} {p : Progress} {bytes source : List UInt8} {kind : Bool}

/-! ## Writing -/

namespace Mirrors

theorem root_folder (h : Mirrors c root out D) : D.get? root = some .folder := by
  have hout : D.kind? (out ++ []) = some true := by
    rw [List.append_nil, kind?_eq_true_iff]
    exact h.folder
  have hroot := h.kind hout
  rwa [List.append_nil, kind?_eq_true_iff] at hroot

theorem ne_nil (h : Mirrors c root out D) (hs : D.get? (root ++ s) = some (.file source)) :
    s ≠ [] := by
  rintro rfl
  rw [List.append_nil, h.root_folder] at hs
  cases hs

theorem locate_source (h : Mirrors c root out D) (hs : D.get? (root ++ s) ≠ none) :
    D.locate (c.root.below s) = .ok (root ++ s) := by
  refine locate_below_names h.root_at (h.tree.forall_mem_of_append h.tree.name hs)
    fun t ht hne => ?_
  exact h.tree.folder_of_prefix ((List.prefix_append_right_inj root).2 ht) hs fun heq =>
    hne (List.append_cancel_left heq)

/-- On the way to where a file of the site is written, there are only folders. -/
theorem folder_of_way (h : Mirrors c root out D) (hs : D.get? (root ++ s) = some (.file source))
    {t : List Text} (ht : t <+: s) (hne : t ≠ s) {entry : Entry}
    (hentry : D.get? (out ++ t) = some entry) : entry = .folder := by
  have hway : D.get? (root ++ t) = some .folder :=
    h.tree.folder_of_prefix ((List.prefix_append_right_inj root).2 ht) (by rw [hs]; simp)
      fun heq => hne (List.append_cancel_left heq)
  cases entry with
  | folder => rfl
  | file bytes =>
      have hfile := h.kind (kind?_of_file hentry)
      rw [kind?_eq_true_iff.2 hway] at hfile
      cases hfile

/-- No folder stands where a file of the site is written. -/
theorem not_folder (h : Mirrors c root out D) (hs : D.get? (root ++ s) = some (.file source)) :
    D.get? (out ++ s) ≠ some .folder := by
  intro hfolder
  have hsource := h.kind (kind?_eq_true_iff.2 hfolder)
  rw [kind?_of_file hs] at hsource
  cases hsource

/-- A file of the site can be written into the output folder. -/
theorem exists_writes (h : Mirrors c root out D) (hs : D.get? (root ++ s) = some (.file source))
    (bytes : List UInt8) : ∃ D', runFrom (writeOutput c s bytes) D = (.ok (), D') ∧
      Writes out s bytes D D' := by
  obtain ⟨front, last, rfl⟩ : ∃ front last, s = front ++ [last] :=
    (List.eq_nil_or_concat' s).resolve_left (h.ne_nil hs)
  have hentry : D.get? (root ++ (front ++ [last])) ≠ none := by rw [hs]; simp
  have hnames := h.tree.forall_mem_of_append h.tree.name hentry
  -- A file on the way would be the counterpart of a folder of the site.
  have hfree : ∀ t, t <+: front → ∀ bytes, D.get? (out ++ t) ≠ some (.file bytes) := by
    intro t ht bytes hfile
    have hne : t ≠ front ++ [last] := fun heq => not_concat_prefix front last (heq ▸ ht)
    cases h.folder_of_way hs (ht.trans (List.prefix_append _ _)) hne hfile
  obtain ⟨D₁, hmade, hlast, hrun⟩ := exists_runFrom_writeOutput h.tree h.out_at h.folder hnames
    hfree (h.not_folder hs) bytes
  refine ⟨_, hrun, ?_, hmade.grows.here, fun q => ?_⟩
  · rw [← List.append_assoc] at hlast ⊢
    exact hmade.tree.put hmade.folder (hnames last (by simp)) (.inl hlast)
  · rw [get?_put (by simp)]
    by_cases hq : q = out ++ (front ++ [last])
    · rw [if_pos hq, if_pos hq]
    · rw [if_neg hq, if_neg hq]
      by_cases hway : out <+: q ∧ q <+: out ++ (front ++ [last])
      · rw [if_pos hway]
        have hfront : q <+: out ++ front := by
          rw [← List.append_assoc] at hway hq
          exact (List.prefix_concat_iff.1 hway.2).resolve_left hq
        rw [hmade.folder_of_way hfront]
      · rw [if_neg hway]
        refine hmade.elsewhere q fun hbetween => hway ⟨hbetween.1, hbetween.2.trans ?_⟩
        exact (List.prefix_append_right_inj out).2 (List.prefix_append _ _)

end Mirrors

namespace Writes

theorem get?_file (h : Writes out s bytes D D') : D'.get? (out ++ s) = some (.file bytes) := by
  rw [h.get?, if_pos rfl]

/-- What stands elsewhere stays. -/
theorem of_some (h : Writes out s bytes D D') (hD : Mirrors c root out D)
    (hs : D.get? (root ++ s) = some (.file source)) (hne : q ≠ out ++ s) {entry : Entry}
    (hq : D.get? q = some entry) : D'.get? q = some entry := by
  rw [h.get?, if_neg hne]
  split
  · rename_i hway
    obtain ⟨⟨t, rfl⟩, hpre⟩ := hway
    have ht := (List.prefix_append_right_inj out).1 hpre
    rw [hD.folder_of_way hs ht (fun heq => hne (by rw [heq])) hq]
  · exact hq

theorem kind_of_some (h : Writes out s bytes D D') (hD : Mirrors c root out D)
    (hs : D.get? (root ++ s) = some (.file source)) (hq : D.kind? q = some kind) :
    D'.kind? q = some kind := by
  by_cases hqs : q = out ++ s
  · subst hqs
    have hsource := hD.kind hq
    rw [kind?_of_file hs] at hsource
    rw [kind?_of_file h.get?_file, hsource]
  · obtain ⟨entry, hentry, hkind⟩ := Option.map_eq_some_iff.1 hq
    rw [Disk.kind?, h.of_some hD hs hqs hentry, Option.map_some, hkind]

/-- Writing a file of the site keeps the output folder a mirror of the site. -/
theorem mirrors (h : Writes out s bytes D D') (hD : Mirrors c root out D)
    (hs : D.get? (root ++ s) = some (.file source)) : Mirrors c root out D' := by
  have hfolders : ∀ q, D.get? q = some .folder → D'.get? q = some .folder := fun q hq =>
    kind?_eq_true_iff.1 (h.kind_of_some hD hs (kind?_eq_true_iff.2 hq))
  refine ⟨h.tree, locate_mono h.here hfolders hD.root_at, locate_mono h.here hfolders hD.out_at,
    hfolders out hD.folder, fun {t kind} ht => ?_⟩
  refine h.kind_of_some hD hs ?_
  rw [Disk.kind?, h.get?] at ht
  split at ht
  · rename_i heq
    obtain rfl := List.append_cancel_left heq
    rw [kind?_of_file hs, ← ht]
    rfl
  · rename_i hne
    split at ht
    · rename_i hway
      have hpre := (List.prefix_append_right_inj out).1 hway.2
      have hroot : D.get? (root ++ t) = some .folder :=
        hD.tree.folder_of_prefix ((List.prefix_append_right_inj root).2 hpre) (by rw [hs]; simp)
          fun heq => hne (by rw [List.append_cancel_left heq])
      rw [kind?_eq_true_iff.2 hroot, ← ht]
      rfl
    · exact hD.kind ht

/-- Outside the output folder nothing changes. -/
theorem around (h : Writes out s bytes D D') (hD : Mirrors c root out D)
    (hs : D.get? (root ++ s) = some (.file source)) (hq : out <+: q → q = out) :
    D'.get? q = D.get? q := by
  have hne : q ≠ out ++ s := by
    rintro rfl
    have heq := hq (List.prefix_append _ _)
    exact hD.ne_nil hs (List.self_eq_append_right.1 heq.symm)
  rw [h.get?, if_neg hne]
  split
  · rename_i hway
    rw [hq hway.1, hD.folder]
  · rfl

end Writes

/-! ## Walking -/

/-- While the site is walked, the disk outside the output folder is as it was, and the output
folder holds no pages. -/
structure IsWalked (c : Config) (root out : List Text) (W D : Disk) : Prop
    extends Mirrors c root out D where
  here : D.here = W.here
  around : ∀ q, (out <+: q → q = out) → D.get? q = W.get? q
  free : ∀ {s : List Text} {bytes : List UInt8}, isPage s = true →
    D.get? (out ++ s) ≠ some (.file bytes)

/-- A walk has come to some pages, from a disk whose files and folders are still there. -/
structure HasWalked (c : Config) (root out : List Text) (W D₀ : Disk) (l : List (List Text))
    (found : Found) (p : Progress) : Prop where
  walked : IsWalked c root out W p.disk
  kinds : ∀ {q : List Text} {kind : Bool}, D₀.kind? q = some kind → p.disk.kind? q = some kind
  pages : found.pages = l

theorem IsWiped.isWalked (h : IsWiped c root out d W) (hroot : W.get? root = some .folder) :
    IsWalked c root out W W := by
  refine ⟨⟨h.tree, h.root_at, h.out_at, h.folder, fun {s kind} hs => ?_⟩, rfl, fun _ _ => rfl,
    fun {s bytes} _ hs => ?_⟩
  · by_cases hnil : s = []
    · subst hnil
      rw [List.append_nil] at hs ⊢
      rw [Disk.kind?, h.folder] at hs
      rw [Disk.kind?, hroot]
      exact hs
    · rw [Disk.kind?, h.empty s hnil] at hs
      cases hs
  · by_cases hnil : s = []
    · rw [hnil, List.append_nil, h.folder] at hs
      cases hs
    · rw [h.empty s hnil] at hs
      cases hs

theorem IsWalked.of_writes (h : IsWalked c root out W D)
    (hs : D.get? (root ++ s) = some (.file source)) (hpage : ¬ isPage s = true)
    (hw : Writes out s bytes D D') : IsWalked c root out W D' := by
  refine ⟨hw.mirrors h.toMirrors hs, hw.here.trans h.here, fun q hq => ?_, fun {t b} ht htfile => ?_⟩
  · rw [hw.around h.toMirrors hs hq, h.around q hq]
  · rw [hw.get?] at htfile
    split at htfile
    · rename_i heq
      rw [List.append_cancel_left heq] at ht
      exact hpage ht
    · split at htfile
      · cases htfile
      · exact h.free ht htfile

/-- A file is taken: a page is kept, any other file is copied. -/
theorem exists_takeFile_hasWalked (h : HasWalked c root out W D₀ l found p)
    (hs : p.disk.get? (root ++ s) = some (.file source)) :
    ∃ found' p', runFrom ((takeFile c s).run found) p = (.ok ((), found'), p') ∧
      HasWalked c root out W D₀ (l ++ [s].filter isPage) found' p' := by
  by_cases hpage : isPage s = true
  · rw [run_takeFile_of_page hpage]
    refine ⟨_, p, rfl, h.walked, h.kinds, ?_⟩
    simp [hpage, h.pages]
  · have hmirrors := h.walked.toMirrors
    obtain ⟨D, hwrite, hw⟩ := hmirrors.exists_writes hs source
    have hread := runFrom_readFile (hmirrors.locate_source (by rw [hs]; simp)) hs
    obtain ⟨events, hrun⟩ := exists_run_takeFile hpage hread hwrite found
    refine ⟨_, _, hrun, h.walked.of_writes hs hpage hw,
      fun hq => hw.kind_of_some hmirrors hs (h.kinds hq), ?_⟩
    simp [hpage, h.pages]

/-- Below the output folder there was nothing to walk. -/
theorem walkFrom_of_below (hW : W.IsTree) (hempty : ∀ t, t ≠ [] → W.get? (out ++ t) = none)
    (hout : out <+: root ++ folder) (n : Nat) :
    walkFrom (fun folder => W.names (root ++ folder)) e n folder = [] := by
  cases n with
  | zero => rfl
  | succ n =>
      rw [walkFrom, List.flatMap_eq_nil_iff]
      rintro ⟨name, isFolder⟩ hname
      obtain ⟨entry, hentry, -⟩ := (Disk.mem_names hW).1 hname
      obtain ⟨t, ht⟩ := hout
      rw [← ht, List.append_assoc, hempty _ (by simp)] at hentry
      cases hentry

theorem run_listing_of_mirrors (h : Mirrors c root out p.disk)
    (hfolder : p.disk.get? (root ++ folder) = some .folder) :
    runFrom ((listing c folder).run found) p = (.ok (p.disk.names (root ++ folder), found), p) := by
  refine run_listing_of_ok ?_
  rw [listFolder, runFrom_locate_bind (h.locate_source (by rw [hfolder]; simp)), runFrom_get_bind,
    runFrom_pure]

/-- The files that a walk comes to through one name of a folder. -/
def filesAt (names : List Text → List (Text × Bool)) (e : Exclusion) (depth : Nat)
    (folder : List Text) (x : Text × Bool) : List (List Text) :=
  if e.skips (folder ++ [x.1]) then []
  else if x.2 then walkFrom names e depth (folder ++ [x.1])
  else [folder ++ [x.1]]

theorem walkFrom_eq_flatMap (names : List Text → List (Text × Bool)) (e : Exclusion) (depth : Nat)
    (folder : List Text) :
    walkFrom names e (depth + 1) folder = (names folder).flatMap (filesAt names e depth folder) := rfl

/-- In the output folder, no name leads to a page. -/
theorem filter_filesAt_of_below (h : IsWalked c root out W D) (hW : W.IsTree)
    (hempty : ∀ t, t ≠ [] → W.get? (out ++ t) = none) (hout : out <+: root ++ folder)
    {x : Text × Bool} (hx : x ∈ D.names (root ++ folder)) (depth : Nat) :
    (filesAt (fun folder => W.names (root ++ folder)) e depth folder x).filter isPage = [] := by
  obtain ⟨entry, hentry, hkind⟩ := (Disk.mem_names h.tree).1 hx
  have hbelow : out <+: root ++ (folder ++ [x.1]) := by
    rw [← List.append_assoc]
    exact hout.trans (List.prefix_append _ _)
  unfold filesAt
  split
  · rfl
  · split
    · rw [walkFrom_of_below hW hempty hbelow, List.filter_nil]
    · rename_i hfile
      obtain ⟨t, ht⟩ := hout
      rw [← ht, List.append_assoc] at hentry
      have hpage : isPage (folder ++ [x.1]) = isPage (t ++ [x.1]) := by simp [isPage]
      rw [List.filter_singleton, hpage]
      cases entry with
      | folder => exact absurd hkind hfile
      | file bytes =>
          have hnot : ¬ isPage (t ++ [x.1]) = true := fun hp => h.free hp hentry
          simp [hnot]

/-- The pages come to in a folder whose names are read from the disk as it is by then are those
that were there. -/
theorem flatMap_filesAt (h : IsWalked c root out W D) (hW : W.IsTree)
    (hempty : ∀ t, t ≠ [] → W.get? (out ++ t) = none) (depth : Nat) :
    (D.names (root ++ folder)).flatMap
        (fun x => (filesAt (fun folder => W.names (root ++ folder)) e depth folder x).filter isPage)
      = (walkFrom (fun folder => W.names (root ++ folder)) e (depth + 1) folder).filter isPage := by
  -- The names differ from those of the wiped disk in the output folder only, and lead to no page.
  by_cases hout : out <+: root ++ folder
  · rw [walkFrom_of_below hW hempty hout, List.filter_nil, List.flatMap_eq_nil_iff]
    exact fun x hx => filter_filesAt_of_below h hW hempty hout hx depth
  · have hnames : D.names (root ++ folder) = W.names (root ++ folder) := by
      refine names_congr h.tree hW fun name => ?_
      rw [Disk.kind?, Disk.kind?, h.around _ (eq_of_prefix_concat hout)]
    rw [hnames, walkFrom_eq_flatMap, List.filter_flatMap]

/-- **A walk finds the pages that were there when it began**, and succeeds. -/
theorem exists_visit_hasWalked (hW : W.IsTree)
    (hempty : ∀ t, t ≠ [] → W.get? (out ++ t) = none) (depth : Nat) (folder : List Text)
    (h : HasWalked c root out W D₀ l found p) (hfolder : D₀.kind? (root ++ folder) = some true) :
    ∃ found' p', runFrom ((visit (listing c) e (takeFile c) depth folder).run found) p
        = (.ok ((), found'), p') ∧
      HasWalked c root out W D₀
        (l ++ (walkFrom (fun folder => W.names (root ++ folder)) e depth folder).filter isPage)
        found' p' := by
  induction depth generalizing folder l found p D₀ with
  | zero => exact ⟨found, p, rfl, by rwa [walkFrom, List.filter_nil, List.append_nil]⟩
  | succ depth ih =>
      have hmirrors := h.walked.toMirrors
      have hlisted : p.disk.get? (root ++ folder) = some .folder :=
        kind?_eq_true_iff.1 (h.kinds hfolder)
      -- What is listed stays in place while the names are gone through.
      have hstart : HasWalked c root out W p.disk l found p := ⟨h.walked, fun hq => hq, h.pages⟩
      have hnames : ∃ found' p', runFrom (((p.disk.names (root ++ folder)).forM fun x =>
            if e.skips (folder ++ [x.1]) then pure ()
            else if x.2 then visit (listing c) e (takeFile c) depth (folder ++ [x.1])
            else takeFile c (folder ++ [x.1])).run found) p = (.ok ((), found'), p') ∧
          HasWalked c root out W p.disk (l ++ (p.disk.names (root ++ folder)).flatMap fun x =>
            (filesAt (fun folder => W.names (root ++ folder)) e depth folder x).filter isPage)
            found' p' := by
        refine exists_forM (fun x hx l found p₁ h₁ => ?_) hstart
        have hkind := (Disk.mem_names_iff_kind? hmirrors.tree).1 hx
        rw [List.append_assoc] at hkind
        unfold filesAt
        by_cases hskip : e.skips (folder ++ [x.1]) = true
        · rw [if_pos hskip, if_pos hskip, List.filter_nil, List.append_nil]
          exact ⟨found, p₁, rfl, h₁⟩
        · rw [if_neg hskip, if_neg hskip]
          by_cases hfolder : x.2 = true
          · rw [if_pos hfolder, if_pos hfolder]
            exact ih _ h₁ (hfolder ▸ hkind)
          · rw [if_neg hfolder, if_neg hfolder]
            rw [Bool.not_eq_true] at hfolder
            obtain ⟨source, hsource⟩ := kind?_eq_false_iff.1 (h₁.kinds (hfolder ▸ hkind))
            exact exists_takeFile_hasWalked h₁ hsource
      obtain ⟨found', p', hrun, hdone⟩ := hnames
      rw [flatMap_filesAt h.walked hW hempty] at hdone
      refine ⟨found', p', ?_, hdone.walked, fun hq => hdone.kinds (h.kinds hq), hdone.pages⟩
      rw [visit, StateT.run_bind, runFrom_bind_of_ok (run_listing_of_mirrors hmirrors hlisted)]
      exact hrun

/-- The walk over a wiped site succeeds, and it finds the pages that were there. -/
theorem exists_walk_isWalked (h : IsWiped c root out d W) (hroot : W.get? root = some .folder)
    (e : Exclusion) (p : Progress) :
    ∃ found p', runFrom (walk c e) { p with disk := W } = (.ok found, p') ∧
      IsWalked c root out W p'.disk ∧
      found.pages = (walkFrom (fun folder => W.names (root ++ folder)) e (2 * W.height + 2)
        []).filter isPage := by
  have hstart : HasWalked c root out W W [] ⟨[], []⟩ { p with disk := W } :=
    ⟨h.isWalked hroot, fun hq => hq, rfl⟩
  obtain ⟨found, p', hrun, hdone⟩ := exists_visit_hasWalked (e := e) h.tree h.empty
    (2 * W.height + 2) [] hstart (by rwa [List.append_nil, kind?_eq_true_iff])
  refine ⟨found, p', ?_, hdone.walked, hdone.pages⟩
  rw [walk, runFrom_get_bind]
  exact runFrom_bind_of_ok hrun _

end

end Site
end Stencil
