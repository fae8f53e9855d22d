import Mathlib.Data.List.Nodup
import Stencil.Proofs.Disk.Action
import Stencil.Site.Walk

set_option autoImplicit false

/-! # The files of a walk

A visit over folders that do not change comes to a row of files (`walkFrom`): files of the disk,
each once, none of them below a folder that is left out. Folders that are added elsewhere on the
disk change nothing in this row (`files_eq_walkFrom`).
-/

namespace Stencil.Site

open Text

/-- The files that a visit comes to below a folder, when `names` gives what is in each folder. -/
def walkFrom (names : List Text → List (Text × Bool)) (e : Exclusion) :
    Nat → List Text → List (List Text)
  | 0, _ => []
  | depth + 1, folder => (names folder).flatMap fun x =>
      if e.skips (folder ++ [x.1]) then []
      else if x.2 then walkFrom names e depth (folder ++ [x.1])
      else [folder ++ [x.1]]

theorem forM_flatMap {m : Type → Type} [Monad m] [LawfulMonad m] {α β : Type} (l : List α)
    (f : α → List β) (file : β → m Unit) :
    (l.flatMap f).forM file = l.forM fun x => (f x).forM file := by
  induction l with
  | nil => rfl
  | cons x l ih =>
      rw [List.flatMap_cons]
      refine List.forM_append.trans ?_
      exact congrArg (fun rest => (f x).forM file >>= fun _ => rest) ih

/-- A visit does its work on the files of the walk, one after the other. -/
theorem visit_eq_forM {m : Type → Type} [Monad m] [LawfulMonad m]
    (names : List Text → List (Text × Bool)) (e : Exclusion) (file : List Text → m Unit)
    (depth : Nat) (folder : List Text) :
    visit (fun folder => pure (names folder)) e file depth folder
      = (walkFrom names e depth folder).forM file := by
  induction depth generalizing folder with
  | zero => rfl
  | succ depth ih =>
      rw [visit, pure_bind, walkFrom, forM_flatMap]
      refine congrArg (names folder).forM (funext fun ⟨name, isFolder⟩ => ?_)
      dsimp only
      by_cases hskip : e.skips (folder ++ [name]) = true
      · rw [if_pos hskip, if_pos hskip]
        rfl
      · rw [if_neg hskip, if_neg hskip]
        by_cases hfolder : isFolder = true
        · rw [if_pos hfolder, if_pos hfolder, ih]
        · rw [if_neg hfolder, if_neg hfolder]
          exact (bind_pure_unit (x := file (folder ++ [name]))).symm

theorem files_eq_walkFrom (d : Disk) (root : List Text) (e : Exclusion) :
    files d root e = walkFrom (fun folder => d.names (root ++ folder)) e (d.height + 1) [] := by
  have hcollect : ∀ (l done : List (List Text)),
      ((l.forM fun file => modify (file :: ·) : StateM (List (List Text)) Unit).run done).2
        = l.reverse ++ done := by
    intro l
    induction l with
    | nil => exact fun _ => rfl
    | cons file l ih =>
        intro done
        refine (ih (file :: done)).trans ?_
        rw [List.reverse_cons, List.append_assoc]
        rfl
  unfold files
  dsimp only
  rw [visit_eq_forM, hcollect, List.append_nil, List.reverse_reverse]

section

variable {d W : Disk} {root out folder s : List Text} {e : Exclusion} {n : Nat}

/-- What a walk comes to are files below the folder, and nothing on the way there is skipped. -/
structure IsReached (d : Disk) (root : List Text) (e : Exclusion) (folder s : List Text) :
    Prop where
  below : folder <+: s
  file : ∃ bytes, d.get? (root ++ s) = some (.file bytes)
  kept : ∀ t, t <+: s → ¬ t <+: folder → ¬ e.skips t = true

theorem isReached_of_mem_walkFrom (h : d.IsTree)
    (hs : s ∈ walkFrom (fun folder => d.names (root ++ folder)) e n folder) :
    IsReached d root e folder s := by
  induction n generalizing folder with
  | zero => cases hs
  | succ n ih =>
      rw [walkFrom] at hs
      obtain ⟨⟨name, isFolder⟩, hname, hs⟩ := List.mem_flatMap.1 hs
      obtain ⟨entry, hentry, hkind⟩ := (Disk.mem_names h).1 hname
      dsimp only at hs
      by_cases hskip : e.skips (folder ++ [name]) = true
      · rw [if_pos hskip] at hs
        cases hs
      · rw [if_neg hskip] at hs
        by_cases hfolder : isFolder = true
        · rw [if_pos hfolder] at hs
          obtain ⟨hbelow, hfile, hkept⟩ := ih hs
          refine ⟨(List.prefix_append _ _).trans hbelow, hfile, fun t ht htf => ?_⟩
          by_cases htn : t <+: folder ++ [name]
          · rcases List.prefix_concat_iff.1 htn with rfl | htn
            · exact hskip
            · exact absurd htn htf
          · exact hkept t ht htn
        · rw [if_neg hfolder, List.mem_singleton] at hs
          subst hs
          refine ⟨List.prefix_append _ _, ?_, fun t ht htf => ?_⟩
          · cases entry with
            | file bytes => exact ⟨bytes, by rw [← List.append_assoc, hentry]⟩
            | folder => exact absurd hkind hfolder
          · rcases List.prefix_concat_iff.1 ht with rfl | ht
            · exact hskip
            · exact absurd ht htf

/-- A walk that goes deep enough comes to every such file. -/
theorem IsReached.mem_walkFrom (h : d.IsTree) (hs : IsReached d root e folder s) (hne : s ≠ folder)
    (hn : s.length ≤ folder.length + n) :
    s ∈ walkFrom (fun folder => d.names (root ++ folder)) e n folder := by
  induction n generalizing folder with
  | zero => exact absurd (hs.below.eq_of_length_le hn).symm hne
  | succ n ih =>
      obtain ⟨bytes, hfile⟩ := hs.file
      obtain ⟨t, rfl⟩ := hs.below
      obtain ⟨name, rest, rfl⟩ : ∃ name rest, t = name :: rest :=
        List.exists_cons_of_ne_nil fun hnil => hne (by rw [hnil, List.append_nil])
      have hsplit : folder ++ name :: rest = folder ++ [name] ++ rest := by simp
      have hname : folder ++ [name] <+: folder ++ name :: rest :=
        hsplit ▸ List.prefix_append _ _
      have hskip : ¬ e.skips (folder ++ [name]) = true :=
        hs.kept _ hname (Disk.Action.not_concat_prefix folder name)
      rw [walkFrom, List.mem_flatMap]
      by_cases hrest : rest = []
      · subst hrest
        refine ⟨(name, false), (Disk.mem_names h).2 ⟨.file bytes, ?_, rfl⟩, ?_⟩
        · rw [List.append_assoc, hfile]
        · rw [if_neg hskip]
          simp
      · have hfolder : d.get? (root ++ (folder ++ [name])) = some .folder :=
          h.folder_of_prefix ((List.prefix_append_right_inj root).2 hname) (by rw [hfile]; simp)
            fun heq => hrest (by simpa using List.append_cancel_left heq)
        refine ⟨(name, true), (Disk.mem_names h).2 ⟨.folder, ?_, rfl⟩, ?_⟩
        · rw [List.append_assoc, hfolder]
        · rw [if_neg hskip, if_pos rfl]
          refine ih ⟨hname, hs.file, fun t ht htf => hs.kept t ht fun hpre => ?_⟩ ?_ ?_
          · exact htf (hpre.trans (List.prefix_append _ _))
          · rw [hsplit]
            simpa using hrest
          · simp only [List.length_append, List.length_cons, List.length_nil] at hn ⊢
            omega

/-- What a walk comes to under a name is below that name. -/
theorem prefix_of_mem_under {x : Text × Bool} (h : d.IsTree)
    (hs : s ∈ if e.skips (folder ++ [x.1]) then []
      else if x.2 then walkFrom (fun folder => d.names (root ++ folder)) e n (folder ++ [x.1])
      else [folder ++ [x.1]]) : folder ++ [x.1] <+: s := by
  split at hs
  · cases hs
  · split at hs
    · exact (isReached_of_mem_walkFrom h hs).below
    · obtain rfl := List.mem_singleton.1 hs
      exact List.prefix_refl _

/-- Files below different names of one folder stand in the order of these names. -/
theorem lt_of_prefix_concat {t : List Text} {a b : Text} (hab : a < b) (hs : folder ++ [a] <+: s)
    (ht : folder ++ [b] <+: t) : s < t := by
  obtain ⟨u, rfl⟩ := hs
  obtain ⟨v, rfl⟩ := ht
  rw [List.append_assoc, List.append_assoc]
  exact List.append_left_lt (List.Lex.rel hab)

/-- A walk comes to its files in the order of their segments. -/
theorem pairwise_walkFrom (h : d.IsTree) :
    (walkFrom (fun folder => d.names (root ++ folder)) e n folder).Pairwise (· < ·) := by
  induction n generalizing folder with
  | zero => exact List.Pairwise.nil
  | succ n ih =>
      rw [walkFrom, List.pairwise_flatMap]
      constructor
      · intro x hx
        split
        · exact List.Pairwise.nil
        · split
          · exact ih
          · exact List.pairwise_singleton _ _
      · refine (Disk.pairwise_names h (root ++ folder)).imp fun {a b} hab s hs t ht => ?_
        exact lt_of_prefix_concat hab (prefix_of_mem_under h hs) (prefix_of_mem_under h ht)

/-- A walk comes to each file once. -/
theorem nodup_walkFrom (h : d.IsTree) :
    (walkFrom (fun folder => d.names (root ++ folder)) e n folder).Nodup :=
  (pairwise_walkFrom h).imp fun hab => ne_of_lt hab

/-! ## Depth -/

theorem walkFrom_succ (hn : d.height < (root ++ folder).length + n) (h : d.IsTree) :
    walkFrom (fun folder => d.names (root ++ folder)) e (n + 1) folder
      = walkFrom (fun folder => d.names (root ++ folder)) e n folder := by
  induction n generalizing folder with
  | zero =>
      -- What stands in the folder would stand higher than anything on the disk.
      rw [walkFrom, walkFrom, List.flatMap_eq_nil_iff]
      rintro ⟨name, isFolder⟩ hname
      obtain ⟨entry, hentry, -⟩ := (Disk.mem_names h).1 hname
      have hheight := Disk.length_le_height hentry
      rw [List.length_append, List.length_singleton] at hheight
      omega
  | succ n ih =>
      rw [walkFrom, walkFrom]
      refine List.flatMap_congr fun x _ => ?_
      rw [ih]
      rw [List.length_append, List.length_append, List.length_singleton]
      rw [List.length_append] at hn
      omega

theorem walkFrom_eq_of_le (h : d.IsTree) {m : Nat} (hn : d.height < (root ++ folder).length + n)
    (hnm : n ≤ m) :
    walkFrom (fun folder => d.names (root ++ folder)) e m folder
      = walkFrom (fun folder => d.names (root ++ folder)) e n folder := by
  induction m, hnm using Nat.le_induction with
  | base => rfl
  | succ m hm ih => rw [walkFrom_succ (by omega) h, ih]

/-! ## Folders added -/

theorem not_prefix_of_ne (hroot : root <+: out) (hne : root ≠ out) : ¬ out <+: root := fun hpre =>
  hne (hroot.eq_of_length (hroot.length_le.antisymm hpre.length_le))

theorem eq_of_prefix_concat {place : List Text} {name : Text} (hplace : ¬ out <+: place)
    (hpre : out <+: place ++ [name]) : place ++ [name] = out := by
  rcases List.prefix_concat_iff.1 hpre with heq | hpre
  · exact heq.symm
  · exact absurd hpre hplace

theorem not_prefix_concat {name : Text} (hfolder : ¬ out <+: root ++ folder)
    (hname : root ++ (folder ++ [name]) ≠ out) : ¬ out <+: root ++ (folder ++ [name]) := by
  rw [← List.append_assoc] at hname ⊢
  exact fun hpre => hname (eq_of_prefix_concat hfolder hpre)

/-- Of the names in a folder, those that stood there before are the names it had. -/
theorem names_eq_of_growsAround (hd : d.IsTree) (hW : W.IsTree)
    (hgrows : Disk.GrowsAround out d W) (hfolder : ¬ out <+: root ++ folder) :
    d.names (root ++ folder) = (W.names (root ++ folder)).filter fun x =>
      (d.kind? (root ++ folder ++ [x.1])).isSome := by
  refine Disk.names_eq_filter hd hW (root ++ folder)
    (fun name => (d.kind? (root ++ folder ++ [name])).isSome) fun name => ?_
  rcases hgrows.get? _ (eq_of_prefix_concat hfolder) with heq | ⟨hnone, -⟩
  · have hkind : W.kind? (root ++ folder ++ [name])
        = d.kind? (root ++ folder ++ [name]) := by
      rw [Disk.kind?, Disk.kind?, heq]
    rw [hkind]
    cases d.kind? (root ++ folder ++ [name]) <;> rfl
  · have hkind : d.kind? (root ++ folder ++ [name]) = none := by
      rw [Disk.kind?, hnone]
      rfl
    rw [hkind]
    rfl

/-- A name that was added outside the place that is skipped is that of a folder. -/
theorem isFolder_of_added (hW : W.IsTree) (hgrows : Disk.GrowsAround out d W) {name : Text}
    {isFolder : Bool} (hbelow : ¬ out <+: root ++ (folder ++ [name]))
    (hnone : d.get? (root ++ (folder ++ [name])) = none)
    (hname : (name, isFolder) ∈ W.names (root ++ folder)) : isFolder = true := by
  obtain ⟨entry, hentry, hkind⟩ := (Disk.mem_names hW).1 hname
  rw [List.append_assoc] at hentry
  rcases hgrows.get? _ (fun hpre => absurd hpre hbelow) with heq | ⟨-, heq⟩
  · rw [heq, hnone] at hentry
    cases hentry
  · rw [heq] at hentry
    obtain rfl := Option.some.inj hentry
    rw [hkind]
    rfl

/-- A folder that was added holds no files outside the place that is skipped. -/
theorem walkFrom_of_get?_eq_none (hd : d.IsTree) (hW : W.IsTree) (hgrows : Disk.GrowsAround out d W)
    (hskip : ∀ t, root ++ t = out → e.skips t = true) (hfolder : ¬ out <+: root ++ folder)
    (hnone : d.get? (root ++ folder) = none) :
    walkFrom (fun folder => W.names (root ++ folder)) e n folder = [] := by
  induction n generalizing folder with
  | zero => rfl
  | succ n ih =>
      rw [walkFrom, List.flatMap_eq_nil_iff]
      rintro ⟨name, isFolder⟩ hname
      by_cases hskipped : e.skips (folder ++ [name]) = true
      · rw [if_pos hskipped]
      · have hbelow : ¬ out <+: root ++ (folder ++ [name]) :=
          not_prefix_concat hfolder fun e => hskipped (hskip _ e)
        have hnone' : d.get? (root ++ (folder ++ [name])) = none := by
          rw [← List.append_assoc]
          exact hd.get?_append_eq_none hnone [name]
        obtain rfl := isFolder_of_added hW hgrows hbelow hnone' hname
        rw [if_neg hskipped, if_pos rfl]
        exact ih hbelow hnone'

theorem flatMap_filter {α β : Type} (l : List α) (keep : α → Bool) (f : α → List β) :
    (l.filter keep).flatMap f = l.flatMap fun a => if keep a then f a else [] := by
  induction l with
  | nil => rfl
  | cons a l ih =>
      by_cases hkeep : keep a = true
      · simp [hkeep, ih]
      · simp [hkeep, ih]

theorem walkFrom_eq_of_growsAround (hd : d.IsTree) (hW : W.IsTree)
    (hgrows : Disk.GrowsAround out d W) (hskip : ∀ t, root ++ t = out → e.skips t = true)
    (hfolder : ¬ out <+: root ++ folder) :
    walkFrom (fun folder => d.names (root ++ folder)) e n folder
      = walkFrom (fun folder => W.names (root ++ folder)) e n folder := by
  induction n generalizing folder with
  | zero => rfl
  | succ n ih =>
      rw [walkFrom, walkFrom, names_eq_of_growsAround hd hW hgrows hfolder, flatMap_filter]
      refine List.flatMap_congr fun x hx => ?_
      obtain ⟨name, isFolder⟩ := x
      dsimp only
      by_cases hskipped : e.skips (folder ++ [name]) = true
      · rw [if_pos hskipped, if_pos hskipped, ite_self]
      · have hbelow : ¬ out <+: root ++ (folder ++ [name]) :=
          not_prefix_concat hfolder fun e => hskipped (hskip _ e)
        rw [if_neg hskipped, if_neg hskipped]
        cases hkind : d.kind? (root ++ folder ++ [name]) with
        | some isFolder =>
            rw [if_pos (Option.isSome_some), ih hbelow]
        | none =>
            -- The name was added, so it is that of a folder with nothing but folders in it.
            have hnone : d.get? (root ++ (folder ++ [name])) = none := by
              rw [← List.append_assoc]
              exact Option.map_eq_none_iff.1 hkind
            obtain rfl := isFolder_of_added hW hgrows hbelow hnone hx
            rw [if_neg (by simp), if_pos rfl,
              walkFrom_of_get?_eq_none hd hW hgrows hskip hbelow hnone]

/-- The files of a site stay the same when folders are added and what is skipped changes. -/
theorem files_eq_of_growsAround (hd : d.IsTree) (hW : W.IsTree)
    (hgrows : Disk.GrowsAround out d W) (hskip : ∀ t, root ++ t = out → e.skips t = true)
    (hroot : ¬ out <+: root) {m : Nat} (hm : W.height < m) :
    files d root e = walkFrom (fun folder => W.names (root ++ folder)) e m [] := by
  have hd' : ∀ {m : Nat}, d.height < m → d.height < (root ++ []).length + m := by omega
  have hW' : ∀ {m : Nat}, W.height < m → W.height < (root ++ []).length + m := by omega
  calc files d root e
      = walkFrom (fun folder => d.names (root ++ folder)) e (d.height + 1) [] :=
        files_eq_walkFrom d root e
    _ = walkFrom (fun folder => d.names (root ++ folder)) e (d.height + 1 + m) [] :=
        (walkFrom_eq_of_le hd (hd' (by omega)) (by omega)).symm
    _ = walkFrom (fun folder => W.names (root ++ folder)) e (d.height + 1 + m) [] :=
        walkFrom_eq_of_growsAround hd hW hgrows hskip (by rwa [List.append_nil])
    _ = walkFrom (fun folder => W.names (root ++ folder)) e m [] :=
        walkFrom_eq_of_le hW (hW' hm) (by omega)

end

end Stencil.Site
