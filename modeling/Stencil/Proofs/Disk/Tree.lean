import Mathlib.Data.List.Induction
import Mathlib.Data.List.Lex
import Mathlib.Data.List.Sort
import Stencil.Disk
import Stencil.Proofs.Text.CodePoint

set_option autoImplicit false

/-! # Disks as trees

What stands at a place after an entry is put or erased, and what makes a disk a tree: each place
has one entry, and what leads to it are folders (`IsTree`). A path leads through such a disk by
its segments alone, and the names of a folder are settled by what stands in it.
-/

namespace Stencil.Disk

open Text

variable {d d' : Disk} {place q : List Text} {entry : Entry}

/-! ## What stands at a place -/

theorem get?_of_ne_nil (d : Disk) (h : place ≠ []) : d.get? place = d.entries.lookup place := by
  rw [get?, if_neg (by simpa using h)]

theorem lookup_filter_fst {α β : Type} [BEq α] [LawfulBEq α] (keep : α → Bool) (l : List (α × β))
    (a : α) :
    (l.filter fun x => keep x.1).lookup a = if keep a then l.lookup a else none := by
  induction l with
  | nil => simp
  | cons x l ih =>
      obtain ⟨b, v⟩ := x
      rw [List.filter_cons]
      by_cases hab : a = b
      · subst hab
        by_cases hkeep : keep a = true
        · simp [hkeep]
        · simp only [hkeep, Bool.false_eq_true, if_false] at ih ⊢
          exact ih
      · have hne : (a == b) = false := by simpa using hab
        rw [List.lookup_cons, hne, ← ih]
        by_cases hkeep : keep b = true
        · rw [if_pos hkeep, List.lookup_cons, hne]
        · rw [if_neg hkeep]

theorem get?_put (hplace : place ≠ []) :
    (d.put place entry).get? q = if q = place then some entry else d.get? q := by
  by_cases hq : q = []
  · subst hq
    rw [if_neg fun e => hplace e.symm]
    rfl
  · rw [get?_of_ne_nil _ hq, get?_of_ne_nil _ hq, put, List.lookup_append]
    have hkept := lookup_filter_fst (fun a => decide (a ≠ place)) d.entries q
    rw [hkept]
    by_cases hqp : q = place
    · simp [hqp]
    · have hne : (q == place) = false := by simpa using hqp
      simp [hqp, List.lookup_cons, hne]

theorem get?_erase (hplace : place ≠ []) :
    (d.erase place).get? q = if place <+: q then none else d.get? q := by
  by_cases hq : q = []
  · subst hq
    rw [if_neg fun h => hplace (List.prefix_nil.1 h)]
    rfl
  · rw [get?_of_ne_nil _ hq, get?_of_ne_nil _ hq, erase]
    have hkept := lookup_filter_fst (fun a => !place.isPrefixOf a) d.entries q
    refine hkept.trans ?_
    by_cases hpq : place <+: q
    · simp [hpq]
    · simp [hpq]

theorem get?_empty (hq : ¬ place <+: q) : (d.empty place).get? q = d.get? q := by
  by_cases hnil : q = []
  · rw [hnil]
    rfl
  · rw [get?_of_ne_nil _ hnil, get?_of_ne_nil _ hnil, empty]
    have hkept := lookup_filter_fst (fun a => decide (a = place) || !place.isPrefixOf a) d.entries q
    refine hkept.trans (if_pos ?_)
    rw [Bool.or_eq_true, Bool.not_eq_true', ← Bool.not_eq_true, List.isPrefixOf_iff_prefix]
    exact .inr hq

/-- A place that is removed need not be emptied before. -/
theorem erase_empty (d : Disk) (place : List Text) : (d.empty place).erase place = d.erase place := by
  rw [erase, erase, empty, List.filter_filter]
  congr 1
  refine List.filter_congr fun e _ => ?_
  cases hpre : place.isPrefixOf e.1 <;> simp [hpre]

@[simp] theorem here_put : (d.put place entry).here = d.here := rfl

@[simp] theorem here_empty : (d.empty place).here = d.here := rfl

@[simp] theorem here_erase : (d.erase place).here = d.here := rfl

/-! ## Trees -/

/-- A disk whose entries form a tree: one entry at each place, folders around it, and no name
that means something else in a path. -/
structure IsTree (d : Disk) : Prop where
  nodup : (d.entries.map Prod.fst).Nodup
  parent : ∀ {place : List Text} {name : Text}, d.get? (place ++ [name]) ≠ none →
    d.get? place = some .folder
  name : ∀ {place : List Text} {name : Text}, d.get? (place ++ [name]) ≠ none →
    name ≠ [char '.', char '.']

namespace IsTree

theorem get?_eq_some_iff (h : d.IsTree) (hplace : place ≠ []) :
    d.get? place = some entry ↔ (place, entry) ∈ d.entries := by
  rw [get?_of_ne_nil d hplace]
  constructor
  · intro hlookup
    obtain ⟨l, r, hl, -⟩ := List.lookup_eq_some_iff.1 hlookup
    simp [hl]
  · intro hmem
    obtain ⟨l, r, hl⟩ := List.append_of_mem hmem
    refine List.lookup_eq_some_iff.2 ⟨l, r, hl, fun x hx => ?_⟩
    have hnodup := h.nodup
    rw [hl, List.map_append, List.map_cons, List.nodup_append] at hnodup
    have hne := hnodup.2.2 x.1 (List.mem_map_of_mem hx) place List.mem_cons_self
    simpa using hne.symm

/-- What leads to an entry are folders. -/
theorem folder_of_append (h : d.IsTree) (hentry : d.get? (place ++ q) ≠ none) (hq : q ≠ []) :
    d.get? place = some .folder := by
  induction q using List.reverseRecOn with
  | nil => exact absurd rfl hq
  | append_singleton q name ih =>
      rw [← List.append_assoc] at hentry
      have hfolder := h.parent hentry
      by_cases hnil : q = []
      · rwa [hnil, List.append_nil] at hfolder
      · exact ih (by rw [hfolder]; simp) hnil

theorem folder_of_prefix (h : d.IsTree) (hpre : place <+: q) (hentry : d.get? q ≠ none)
    (hne : place ≠ q) : d.get? place = some .folder := by
  obtain ⟨rest, rfl⟩ := hpre
  exact h.folder_of_append hentry fun hnil => hne (by rw [hnil, List.append_nil])

/-- Below a place without an entry there is none. -/
theorem get?_append_eq_none (h : d.IsTree) (hnone : d.get? place = none) (q : List Text) :
    d.get? (place ++ q) = none := by
  by_contra hentry
  by_cases hq : q = []
  · rw [hq, List.append_nil] at hentry
    exact hentry hnone
  · rw [h.folder_of_append hentry hq] at hnone
    cases hnone

/-- What holds of the name of every entry holds of all names that lead to one. -/
theorem forall_mem_of_append {P : Text → Prop} (h : d.IsTree)
    (hname : ∀ {place : List Text} {name : Text}, d.get? (place ++ [name]) ≠ none → P name)
    (hentry : d.get? (place ++ q) ≠ none) : ∀ name ∈ q, P name := by
  induction q using List.reverseRecOn with
  | nil => simp
  | append_singleton q name ih =>
      rw [← List.append_assoc] at hentry
      have hq := ih (by rw [h.parent hentry]; simp)
      intro n hn
      rcases List.mem_append.1 hn with hn | hn
      · exact hq n hn
      · rw [List.mem_singleton.1 hn]
        exact hname hentry

theorem put {name : Text} (h : d.IsTree) (hparent : d.get? place = some .folder)
    (hname : name ≠ [char '.', char '.'])
    (hfile : d.get? (place ++ [name]) ≠ some .folder ∨ entry = .folder) :
    (d.put (place ++ [name]) entry).IsTree := by
  have hne : place ++ [name] ≠ [] := by simp
  refine ⟨?_, ?_, ?_⟩
  · rw [Disk.put, List.map_append, List.nodup_append]
    refine ⟨(h.nodup.sublist ?_), by simp, ?_⟩
    · exact List.filter_sublist.map _
    · intro a ha b hb
      obtain ⟨x, hx, rfl⟩ := List.mem_map.1 ha
      have hxne := (List.mem_filter.1 hx).2
      rw [List.map_singleton, List.mem_singleton] at hb
      subst hb
      simpa using hxne
  · intro at_ n hentry
    rw [get?_put hne] at hentry ⊢
    by_cases hat : at_ = place ++ [name]
    · -- The entry put is a folder when something stands below it.
      rw [if_neg (by simp [hat])] at hentry
      have hfolder := h.parent hentry
      rw [hat] at hfolder
      rw [if_pos hat, hfile.resolve_left fun hno => hno hfolder]
    · rw [if_neg hat]
      by_cases hput : at_ ++ [n] = place ++ [name]
      · rw [(List.append_inj' hput rfl).1]
        exact hparent
      · rw [if_neg hput] at hentry
        exact h.parent hentry
  · intro at_ n hentry
    rw [get?_put hne] at hentry
    by_cases hput : at_ ++ [n] = place ++ [name]
    · have hn : [n] = [name] := (List.append_inj' hput rfl).2
      rw [List.singleton_inj.1 hn]
      exact hname
    · rw [if_neg hput] at hentry
      exact h.name hentry

theorem erase (h : d.IsTree) (hplace : place ≠ []) : (d.erase place).IsTree := by
  refine ⟨h.nodup.sublist (List.filter_sublist.map _), ?_, ?_⟩
  · intro at_ name hentry
    rw [get?_erase hplace] at hentry ⊢
    by_cases hpre : place <+: at_ ++ [name]
    · rw [if_pos hpre] at hentry
      exact absurd rfl hentry
    · rw [if_neg hpre] at hentry
      rw [if_neg fun hp => hpre (hp.trans (List.prefix_append _ _))]
      exact h.parent hentry
  · intro at_ name hentry
    rw [get?_erase hplace] at hentry
    by_cases hpre : place <+: at_ ++ [name]
    · rw [if_pos hpre] at hentry
      exact absurd rfl hentry
    · rw [if_neg hpre] at hentry
      exact h.name hentry

end IsTree

/-! ## The names of a folder -/

/-- What an entry adds to the names in the folder at a place. -/
def nameIn? (place : List Text) (x : List Text × Entry) : Option (Text × Bool) :=
  match x.1.reverse with
  | name :: parent => if parent.reverse = place then some (name, x.2 == .folder) else none
  | [] => none

theorem nameIn?_eq_some_iff {x : List Text × Entry} {a : Text × Bool} :
    nameIn? place x = some a ↔ x.1 = place ++ [a.1] ∧ a.2 = (x.2 == .folder) := by
  obtain ⟨at_, entry⟩ := x
  obtain ⟨name, isFolder⟩ := a
  dsimp only
  rcases List.eq_nil_or_concat' at_ with rfl | ⟨folder, last, rfl⟩
  · simp [nameIn?]
  · rw [List.append_singleton_inj, nameIn?]
    simp [and_assoc, eq_comm]

theorem names_eq (d : Disk) (place : List Text) :
    d.names place
      = (d.entries.filterMap (nameIn? place)).mergeSort fun a b => !decide (b.1 < a.1) := rfl

theorem mem_names (h : d.IsTree) {name : Text} {isFolder : Bool} :
    (name, isFolder) ∈ d.names place ↔
      ∃ entry, d.get? (place ++ [name]) = some entry ∧ isFolder = (entry == .folder) := by
  rw [names_eq, List.mem_mergeSort, List.mem_filterMap]
  constructor
  · rintro ⟨⟨at_, entry⟩, hmem, hname⟩
    obtain ⟨rfl, hfolder⟩ := nameIn?_eq_some_iff.1 hname
    exact ⟨entry, (h.get?_eq_some_iff (by simp)).2 hmem, hfolder⟩
  · rintro ⟨entry, hget, hfolder⟩
    exact ⟨(place ++ [name], entry), (h.get?_eq_some_iff (by simp)).1 hget,
      nameIn?_eq_some_iff.2 ⟨rfl, hfolder⟩⟩

/-- Sorting puts a list in the order of its keys. -/
theorem pairwise_mergeSort_le {α : Type} (key : α → Text) (l : List α) :
    (l.mergeSort fun a b => !decide (key b < key a)).Pairwise fun a b => key a ≤ key b := by
  have hsorted : (l.mergeSort fun a b => !decide (key b < key a)).Pairwise
      fun a b => (!decide (key b < key a)) = true := by
    refine List.pairwise_mergeSort (fun a b c hab hbc => ?_) (fun a b => ?_) l
    · simp only [Bool.not_eq_true', decide_eq_false_iff_not] at hab hbc ⊢
      exact not_lt.2 ((not_lt.1 hab).trans (not_lt.1 hbc))
    · rcases le_total (key a) (key b) with hab | hab
      · simp [not_lt.2 hab]
      · simp [not_lt.2 hab]
  refine hsorted.imp fun hab => ?_
  simpa using hab

/-- The names of a folder stand in order, each once. -/
theorem pairwise_names (h : d.IsTree) (place : List Text) :
    (d.names place).Pairwise fun a b => a.1 < b.1 := by
  have hle : (d.names place).Pairwise fun a b => a.1 ≤ b.1 := pairwise_mergeSort_le Prod.fst _
  have hne : (d.names place).Pairwise fun a b => a.1 ≠ b.1 := by
    refine List.Pairwise.perm ?_ (List.mergeSort_perm _ _).symm fun hab => hab.symm
    -- Entries with one name in the folder stand at one place.
    refine List.Pairwise.filterMap _ (fun x y hne a ha b hb hab => hne ?_)
      (List.pairwise_map.1 h.nodup)
    rw [(nameIn?_eq_some_iff.1 ha).1, (nameIn?_eq_some_iff.1 hb).1, hab]
  exact (hle.and hne).imp fun hab => lt_of_le_of_ne hab.1 hab.2

/-- Whether a folder stands at a place, if anything does. -/
def kind? (d : Disk) (place : List Text) : Option Bool := (d.get? place).map (· == .folder)

theorem mem_names_iff_kind? (h : d.IsTree) {x : Text × Bool} :
    x ∈ d.names place ↔ d.kind? (place ++ [x.1]) = some x.2 := by
  obtain ⟨name, isFolder⟩ := x
  rw [mem_names h, kind?, Option.map_eq_some_iff]
  simp only [eq_comm]

/-- The names of a folder are settled by what is found in it: a disk that has there what another
one keeps has those names. -/
theorem names_eq_filter (h : d.IsTree) (h' : d'.IsTree) (place : List Text) (keep : Text → Bool)
    (hkind : ∀ name, d.kind? (place ++ [name])
      = if keep name then d'.kind? (place ++ [name]) else none) :
    d.names place = (d'.names place).filter (keep ·.1) := by
  have hirrefl : Std.Irrefl fun a b : Text × Bool => a.1 < b.1 := ⟨fun a => lt_irrefl a.1⟩
  have hantisymm : Std.Antisymm fun a b : Text × Bool => a.1 < b.1 :=
    ⟨fun a b hab hba => absurd hab (lt_asymm hba)⟩
  refine (pairwise_names h place).eq_of_mem_iff ((pairwise_names h' place).filter _) fun x => ?_
  rw [mem_names_iff_kind? h, List.mem_filter, mem_names_iff_kind? h', hkind]
  by_cases hkeep : keep x.1 = true
  · simp [hkeep]
  · simp [hkeep]

theorem names_congr (h : d.IsTree) (h' : d'.IsTree)
    (hkind : ∀ name, d.kind? (place ++ [name]) = d'.kind? (place ++ [name])) :
    d.names place = d'.names place := by
  have hfilter := names_eq_filter h h' place (fun _ => true) fun name => by
    rw [if_pos rfl]
    exact hkind name
  rwa [List.filter_true] at hfilter

/-! ## The files below a folder -/

/-- What an entry adds to the files below a place. -/
def fileBelow? (place : List Text) (x : List Text × Entry) : Option (List Text × List UInt8) :=
  match relative? place x.1, x.2 with
  | some segments, .file bytes => some (segments, bytes)
  | _, _ => none

theorem relative?_eq_some_iff {s : List Text} : relative? place q = some s ↔ q = place ++ s := by
  rw [relative?]
  constructor
  · intro h
    split at h
    · rename_i hpre
      obtain ⟨rest, rfl⟩ := List.isPrefixOf_iff_prefix.1 hpre
      rw [List.drop_left, Option.some.injEq] at h
      rw [h]
    · cases h
  · rintro rfl
    rw [if_pos (List.isPrefixOf_iff_prefix.2 (List.prefix_append place s)), List.drop_left]

theorem fileBelow?_eq_some_iff {x : List Text × Entry} {a : List Text × List UInt8} :
    fileBelow? place x = some a ↔ x = (place ++ a.1, .file a.2) := by
  obtain ⟨at_, entry⟩ := x
  obtain ⟨segments, bytes⟩ := a
  rw [fileBelow?, Prod.mk.injEq, ← relative?_eq_some_iff]
  cases relative? place at_ <;> cases entry <;> simp

theorem filesBelow_eq (d : Disk) (place : List Text) :
    d.filesBelow place
      = (d.entries.filterMap (fileBelow? place)).mergeSort fun a b => !decide (b.1 < a.1) := rfl

/-- What holds of every file below a place does not hang on their order. -/
theorem forall_mem_filesBelow {P : List Text × List UInt8 → Prop} :
    (∀ x ∈ d.filesBelow place, P x) ↔
      ∀ x ∈ d.entries.filterMap (fileBelow? place), P x := by
  simp only [filesBelow_eq, List.mem_mergeSort]

theorem mem_filesBelow {s : List Text} {bytes : List UInt8} :
    (s, bytes) ∈ d.filesBelow place ↔ (place ++ s, .file bytes) ∈ d.entries := by
  rw [filesBelow_eq, List.mem_mergeSort, List.mem_filterMap]
  simp only [fileBelow?_eq_some_iff, exists_eq_right]

/-- A file is listed once. -/
theorem IsTree.nodup_filesBelow (h : d.IsTree) (place : List Text) :
    ((d.filesBelow place).map Prod.fst).Nodup := by
  have hne : (d.filesBelow place).Pairwise fun a b => a.1 ≠ b.1 := by
    refine List.Pairwise.perm ?_ (List.mergeSort_perm _ _).symm fun hab => hab.symm
    refine List.Pairwise.filterMap _ (fun x y hne a ha b hb hab => hne ?_)
      (List.pairwise_map.1 h.nodup)
    rw [fileBelow?_eq_some_iff.1 ha, fileBelow?_eq_some_iff.1 hb, hab]
  exact List.pairwise_map.2 hne

theorem length_le_height (h : d.get? place = some entry) : place.length ≤ d.height := by
  by_cases hplace : place = []
  · simp [hplace]
  · rw [get?_of_ne_nil d hplace] at h
    obtain ⟨l, r, hl, -⟩ := List.lookup_eq_some_iff.1 h
    have key : ∀ (entries : List (List Text × Entry)) (n : Nat),
        n ≤ entries.foldl (fun n x => max n x.1.length) n ∧
        ∀ x ∈ entries, x.1.length ≤ entries.foldl (fun n x => max n x.1.length) n := by
      intro entries
      induction entries with
      | nil => simp
      | cons y entries ih =>
          intro n
          -- What the fold has come to is kept by the rest of it.
          obtain ⟨hn, hentries⟩ := ih (max n y.1.length)
          rw [List.forall_mem_cons, List.foldl_cons]
          exact ⟨(le_max_left _ _).trans hn, (le_max_right _ _).trans hn, hentries⟩
    exact (key d.entries 0).2 (place, entry) (by simp [hl])

/-! ## Where paths lead -/

/-- A path leads where its segments say. -/
theorem resolve_eq_of_locate {p : Path} (h : d.locate p = .ok place) :
    p.resolve d.here = place := by
  have key : ∀ (segments from_ : List Text), segments.foldlM d.step from_ = .ok place →
      segments.foldl Path.follow from_ = place := by
    intro segments
    induction segments with
    | nil =>
        intro from_ hfold
        exact Except.ok.inj hfold
    | cons segment segments ih =>
        intro from_ hfold
        rw [List.foldlM_cons] at hfold
        unfold step at hfold
        split at hfold
        · cases hfold
        · cases hfold
        · exact ih _ hfold
  exact key _ _ h

/-- A disk with all the folders of another one leads where that one does. -/
theorem locate_mono {p : Path} (hhere : d'.here = d.here)
    (hfolders : ∀ q, d.get? q = some .folder → d'.get? q = some .folder)
    (h : d.locate p = .ok place) : d'.locate p = .ok place := by
  have key : ∀ (segments from_ : List Text), segments.foldlM d.step from_ = .ok place →
      segments.foldlM d'.step from_ = .ok place := by
    intro segments
    induction segments with
    | nil => exact fun from_ hfold => hfold
    | cons segment segments ih =>
        intro from_ hfold
        rw [List.foldlM_cons] at hfold ⊢
        unfold step at hfold
        split at hfold
        · cases hfold
        · cases hfold
        · rename_i hfolder
          have hstep : d'.step from_ segment = .ok (Path.follow from_ segment) := by
            rw [step, hfolders _ hfolder]
          rw [hstep]
          exact ih _ hfold
  rw [locate, hhere]
  exact key _ _ h

/-- Names lead from folder to folder. -/
theorem foldlM_step_names {names : List Text} (hnames : ∀ name ∈ names, name ≠ [char '.', char '.'])
    (hfolders : ∀ t, t <+: names → t ≠ names → d.get? (place ++ t) = some .folder) :
    names.foldlM d.step place = .ok (place ++ names) := by
  induction names generalizing place with
  | nil => simp [pure, Except.pure]
  | cons name names ih =>
      have hfolder := hfolders [] (List.nil_prefix) (by simp)
      rw [List.append_nil] at hfolder
      have hstep : d.step place name = .ok (place ++ [name]) := by
        rw [step, hfolder, Path.follow, if_neg (hnames name List.mem_cons_self)]
      rw [List.foldlM_cons, hstep]
      show names.foldlM d.step (place ++ [name]) = _
      rw [ih (fun n hn => hnames n (List.mem_cons_of_mem _ hn)) fun t ht hne => ?_]
      · rw [List.append_assoc]
        rfl
      · rw [List.append_assoc]
        exact hfolders (name :: t) (List.cons_prefix_cons.2 ⟨rfl, ht⟩) (by simpa using hne)

theorem locate_below {p : Path} (h : d.locate p = .ok place) (segments : List Text) :
    d.locate (p.below segments) = segments.foldlM d.step place := by
  rw [locate, Path.below, List.foldlM_append]
  show (do let at_ ← d.locate p; segments.foldlM d.step at_) = _
  rw [h]
  rfl

theorem locate_below_names {p : Path} (h : d.locate p = .ok place) {names : List Text}
    (hnames : ∀ name ∈ names, name ≠ [char '.', char '.'])
    (hfolders : ∀ t, t <+: names → t ≠ names → d.get? (place ++ t) = some .folder) :
    d.locate (p.below names) = .ok (place ++ names) := by
  rw [locate_below h, foldlM_step_names hnames hfolders]

/-- A path that is made of two leads on from where the first one leads. -/
theorem locate_of_locate_below {p : Path} {segments : List Text}
    (h : d.locate (p.below segments) = .ok place) :
    ∃ folder, d.locate p = .ok folder ∧ segments.foldlM d.step folder = .ok place := by
  rw [locate, Path.below, List.foldlM_append] at h
  cases hfolder : d.locate p with
  | error trouble =>
      rw [locate] at hfolder
      rw [hfolder] at h
      cases h
  | ok folder =>
      rw [locate] at hfolder
      rw [hfolder] at h
      exact ⟨folder, rfl, h⟩

/-- A place where nothing stands is led to through the folder around it. -/
theorem IsTree.exists_folder_of_locate {p : Path} (h : d.IsTree)
    (hhere : p.slashes = 0 → d.get? d.here = some .folder) (hplace : d.locate p = .ok place)
    (hnone : d.get? place = none) :
    ∃ folder name, place = folder ++ [name] ∧ d.get? folder = some .folder ∧
      name ≠ [char '.', char '.'] := by
  obtain ⟨slashes, segments⟩ := p
  rcases List.eq_nil_or_concat' segments with rfl | ⟨front, last, rfl⟩
  · -- The path is the current folder or the root, and both exist.
    obtain rfl := Except.ok.inj hplace
    by_cases hslashes : slashes = 0
    · rw [if_pos hslashes, hhere hslashes] at hnone
      cases hnone
    · rw [if_neg hslashes] at hnone
      cases hnone
  · obtain ⟨folder, -, hstep⟩ := locate_of_locate_below (p := ⟨slashes, front⟩) hplace
    rw [List.foldlM_cons] at hstep
    unfold step at hstep
    split at hstep
    · cases hstep
    · cases hstep
    · rename_i hfolder
      obtain rfl : Path.follow folder last = place := Except.ok.inj hstep
      by_cases hup : last = [char '.', char '.']
      · rw [Path.follow, if_pos hup] at hnone
        rcases List.eq_nil_or_concat' folder with rfl | ⟨around, name, rfl⟩
        · cases hnone
        · rw [List.dropLast_concat, h.parent (by rw [hfolder]; simp)] at hnone
          cases hnone
      · rw [Path.follow, if_neg hup]
        exact ⟨folder, last, rfl, hfolder, hup⟩

/-- A path that starts below a place without an entry stays below it: a step out of it would go
through the folder that is missing. -/
theorem prefix_of_foldlM_step {out from_ : List Text} (hnone : d.get? out = none)
    {segments : List Text} (h : segments.foldlM d.step from_ = .ok place) (hfrom : out <+: from_) :
    out <+: place := by
  induction segments generalizing from_ with
  | nil =>
      obtain rfl : from_ = place := Except.ok.inj h
      exact hfrom
  | cons segment segments ih =>
      rw [List.foldlM_cons] at h
      unfold step at h
      split at h
      · cases h
      · cases h
      · rename_i hfolder
        refine ih h ?_
        rw [Path.follow]
        split
        · rcases List.eq_nil_or_concat' from_ with rfl | ⟨around, name, rfl⟩
          · exact hfrom
          · rw [List.dropLast_concat]
            rcases List.prefix_concat_iff.1 hfrom with heq | hpre
            · rw [← heq, hnone] at hfolder
              cases hfolder
            · exact hpre
        · exact hfrom.trans (List.prefix_append _ _)

/-! ## Well-formed disks -/

/-- A tree whose current folder exists, with names that can be told apart in a path. -/
structure WellFormed (d : Disk) : Prop extends d.IsTree where
  here_folder : d.get? d.here = some .folder
  no_slash : ∀ {place : List Text} {name : Text}, d.get? (place ++ [name]) ≠ none → char '/' ∉ name

/-- What makes a disk well-formed can be read off its entries. -/
theorem wellFormed_iff : d.WellFormed ↔
    (d.entries.map Prod.fst).Nodup ∧ d.get? d.here = some .folder ∧
      ∀ x ∈ d.entries, ∀ name ∈ x.1.getLast?,
        d.get? x.1.dropLast = some .folder ∧ name ≠ [char '.', char '.'] ∧ char '/' ∉ name := by
  constructor
  · intro h
    refine ⟨h.nodup, h.here_folder, fun x hx name hname => ?_⟩
    obtain ⟨place, entry⟩ := x
    rcases List.eq_nil_or_concat' place with rfl | ⟨folder, last, rfl⟩
    · cases hname
    · obtain rfl : last = name := by simpa using hname
      have hget : d.get? (folder ++ [last]) ≠ none := by
        rw [(h.get?_eq_some_iff (by simp)).2 hx]
        simp
      rw [List.dropLast_concat]
      exact ⟨h.parent hget, h.name hget, h.no_slash hget⟩
  · rintro ⟨hnodup, hhere, hentries⟩
    have hentry : ∀ {place : List Text} {name : Text}, d.get? (place ++ [name]) ≠ none →
        d.get? place = some .folder ∧ name ≠ [char '.', char '.'] ∧ char '/' ∉ name := by
      intro place name hget
      obtain ⟨entry, hget⟩ := Option.ne_none_iff_exists'.1 hget
      rw [get?_of_ne_nil d (by simp)] at hget
      obtain ⟨l, r, hl, -⟩ := List.lookup_eq_some_iff.1 hget
      have hname := hentries (place ++ [name], entry) (by simp [hl]) name (by simp)
      rwa [List.dropLast_concat] at hname
    exact ⟨⟨hnodup, fun h => (hentry h).1, fun h => (hentry h).2.1⟩, hhere,
      fun h => (hentry h).2.2⟩

instance : Decidable d.WellFormed := decidable_of_iff _ wellFormed_iff.symm

end Stencil.Disk
