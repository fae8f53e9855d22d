import Stencil.Proofs.Disk.Action

set_option autoImplicit false

/-! # What work leaves alone

`Keeps I P E x` says that `x`, started in a state with `I`, ends in one, however it ends: with a
result that has `P` or with a failure that has `E`. It goes through a program step by step, so it
also speaks of work that fails half way.

The invariant here is that the files outside a folder are those of an earlier disk (`IsFramed`).
Making folders keeps it wherever they are made, since a folder is made only where nothing stands;
writing and removing keep it inside the folder.
-/

namespace Stencil

/-! ## Invariants of work -/

section

variable {ε σ α β : Type} {I : σ → Prop} {P Q : α → Prop} {E F : ε → Prop}
  {x : ExceptT ε (StateM σ) α}

/-- From a state with an invariant, work ends in a state with it, and with a result or a failure
of a kind. -/
def Keeps (I : σ → Prop) (P : α → Prop) (E : ε → Prop) (x : ExceptT ε (StateM σ) α) : Prop :=
  ∀ s, I s → match runFrom x s with
    | (.ok a, s') => P a ∧ I s'
    | (.error e, s') => E e ∧ I s'

theorem keeps_pure {a : α} (h : P a) : Keeps I P E (pure a) := fun _ hs => ⟨h, hs⟩

theorem keeps_throw {e : ε} (h : E e) : Keeps I P E (throw e) := fun _ hs => ⟨h, hs⟩

/-- The state that is looked at has the invariant. -/
theorem keeps_get : Keeps I I E get := fun _ hs => ⟨hs, hs⟩

theorem keeps_modify {f : σ → σ} (h : ∀ s, I s → I (f s)) :
    Keeps I (fun _ => True) E (modify f) := fun s hs => ⟨trivial, h s hs⟩

namespace Keeps

theorem mono (h : Keeps I P E x) (hP : ∀ a, P a → Q a) (hE : ∀ e, E e → F e) :
    Keeps I Q F x := by
  intro s hs
  have hx := h s hs
  generalize runFrom x s = r at hx ⊢
  rcases r with ⟨e | a, s'⟩
  · exact ⟨hE e hx.1, hx.2⟩
  · exact ⟨hP a hx.1, hx.2⟩

theorem bind {f : α → ExceptT ε (StateM σ) β} {R : β → Prop} (hx : Keeps I P E x)
    (hf : ∀ a, P a → Keeps I R E (f a)) : Keeps I R E (x >>= f) := by
  intro s hs
  have hs' := hx s hs
  rw [runFrom_bind]
  generalize runFrom x s = r at hs' ⊢
  rcases r with ⟨e | a, s'⟩
  · exact hs'
  · exact hf a hs'.1 s' hs'.2

/-- However the work ends, the invariant holds then. -/
theorem invariant (h : Keeps I P E x) {s : σ} (hs : I s) : I (runFrom x s).2 := by
  have hx := h s hs
  generalize runFrom x s = r at hx ⊢
  rcases r with ⟨e | a, s'⟩
  · exact hx.2
  · exact hx.2

theorem of_ok (h : Keeps I P E x) {s s' : σ} {a : α} (hs : I s) (hrun : runFrom x s = (.ok a, s')) :
    P a ∧ I s' := by
  have hx := h s hs
  rwa [hrun] at hx

theorem of_error (h : Keeps I P E x) {s s' : σ} {e : ε} (hs : I s)
    (hrun : runFrom x s = (.error e, s')) : E e ∧ I s' := by
  have hx := h s hs
  rwa [hrun] at hx

end Keeps

/-- From a state with an invariant, work that cannot fail ends in a state with it. -/
def Maintains (I : σ → Prop) (x : StateM σ α) : Prop := ∀ s, I s → I (Id.run (x.run s)).2

theorem maintains_pure (a : α) : Maintains I (pure a) := fun _ hs => hs

theorem maintains_modify {f : σ → σ} (h : ∀ s, I s → I (f s)) : Maintains I (modify f) := h

theorem Maintains.bind {x : StateM σ α} {f : α → StateM σ β} (hx : Maintains I x)
    (hf : ∀ a, Maintains I (f a)) : Maintains I (x >>= f) := fun s hs => hf _ _ (hx s hs)

end

/-! ## Places without a step up -/

namespace Path

/-- The segment that leads to the folder around a folder. -/
def up : Text := ['.', '.']

theorem up_not_mem_follow {place : List Text} {segment : Text} (h : up ∉ place) :
    up ∉ follow place segment := by
  unfold follow
  split
  · exact fun hmem => h ((List.dropLast_subset place) hmem)
  · rename_i hsegment
    simpa [up, h] using ⟨h, fun e => hsegment e.symm⟩

theorem up_not_mem_resolve {here : List Text} (h : up ∉ here) (p : Path) :
    up ∉ p.resolve here := by
  have hfold : ∀ (segments : List Text) {from_ : List Text}, up ∉ from_ →
      up ∉ segments.foldl follow from_ := by
    intro segments
    induction segments with
    | nil => exact fun hfrom => hfrom
    | cons segment segments ih => exact fun hfrom => ih (up_not_mem_follow hfrom)
  refine hfold p.segments ?_
  split
  · exact h
  · exact List.not_mem_nil

/-- Names below a path lead to the names below its place. -/
theorem resolve_below {names : List Text} (h : up ∉ names) (p : Path) (here : List Text) :
    (p.below names).resolve here = p.resolve here ++ names := by
  have hfold : ∀ (names from_ : List Text), up ∉ names →
      names.foldl follow from_ = from_ ++ names := by
    intro names
    induction names with
    | nil => exact fun from_ _ => (List.append_nil from_).symm
    | cons name names ih =>
        intro from_ hnames
        rw [List.mem_cons, not_or] at hnames
        rw [List.foldl_cons, follow, if_neg fun e => hnames.1 e.symm, ih _ hnames.2,
          List.append_assoc, List.singleton_append]
  rw [resolve, below, List.foldl_append]
  exact hfold names _ h

end Path

namespace Disk

open Text Stencil.Path

/-! ## Files outside a folder -/

/-- Outside a folder, a disk has the files of an earlier one, and no name on it means a step up. -/
structure IsFramed (out : List Text) (d D : Disk) : Prop where
  here : D.here = d.here
  here_names : up ∉ d.here
  names : ∀ x ∈ D.entries, up ∉ x.1
  files : ∀ q, ¬ out <+: q → ∀ bytes, D.get? q = some (.file bytes) ↔ d.get? q = some (.file bytes)

section

variable {d D D' : Disk} {out place : List Text} {p : Path} {entry : Entry}
  {E : Fault → Prop}

theorem WellFormed.isFramed (h : d.WellFormed) (out : List Text) : IsFramed out d d := by
  have hnames : ∀ {q : List Text}, d.get? q ≠ none → up ∉ q := by
    intro q hq hmem
    have hentry : d.get? ([] ++ q) ≠ none := hq
    exact h.toIsTree.forall_mem_of_append h.name hentry up hmem rfl
  refine ⟨rfl, hnames (by rw [h.here_folder]; simp), fun x hx => ?_, fun _ _ _ => Iff.rfl⟩
  by_cases hnil : x.1 = []
  · rw [hnil]
    exact List.not_mem_nil
  · exact hnames (by rw [(h.toIsTree.get?_eq_some_iff hnil).2 hx]; simp)

namespace IsFramed

theorem up_not_mem_of_locate (h : IsFramed out d D) (hplace : D.locate p = .ok place) :
    place = p.resolve d.here ∧ up ∉ place := by
  have hresolve := resolve_eq_of_locate hplace
  rw [h.here] at hresolve
  exact ⟨hresolve.symm, hresolve ▸ up_not_mem_resolve h.here_names p⟩

theorem mem_names (h : IsFramed out d D) {x : Text × Bool} (hx : x ∈ D.names place) : x.1 ≠ up := by
  rw [names_eq, List.mem_mergeSort, List.mem_filterMap] at hx
  obtain ⟨e, he, hname⟩ := hx
  have hmem := h.names e he
  rw [(nameIn?_eq_some_iff.1 hname).1] at hmem
  intro hup
  exact hmem (hup ▸ List.mem_append_right _ (List.mem_singleton_self _))

theorem put (h : IsFramed out d D) (hplace : place ≠ []) (hup : up ∉ place)
    (hfiles : ¬ out <+: place → ∀ bytes, entry = .file bytes ↔ D.get? place = some (.file bytes)) :
    IsFramed out d (D.put place entry) := by
  refine ⟨h.here, h.here_names, fun x hx => ?_, fun q hq bytes => ?_⟩
  · rcases List.mem_append.1 hx with hx | hx
    · exact h.names x (List.mem_of_mem_filter hx)
    · rw [List.mem_singleton.1 hx]
      exact hup
  · rw [get?_put hplace, ← h.files q hq]
    by_cases hqp : q = place
    · subst hqp
      rw [if_pos rfl, Option.some_inj, hfiles hq]
    · rw [if_neg hqp]

/-- A folder may be made anywhere: nothing stood there. -/
theorem of_makeFolder (h : IsFramed out d D) (hrun : runFrom (Action.makeFolder p) D = (.ok (), D')) :
    IsFramed out d D' := by
  obtain ⟨place, hplace, hnone, rfl⟩ := Action.of_runFrom_makeFolder hrun
  have hne : place ≠ [] := by
    rintro rfl
    cases hnone
  refine h.put hne (h.up_not_mem_of_locate hplace).2 fun _ bytes => ?_
  rw [hnone]
  simp

theorem empty (h : IsFramed out d D) : IsFramed out d (D.empty out) := by
  refine ⟨h.here, h.here_names, fun x hx => h.names x (List.mem_of_mem_filter hx),
    fun q hq bytes => ?_⟩
  rw [get?_empty hq, h.files q hq]

theorem erase (h : IsFramed out d D) : IsFramed out d (D.erase out) := by
  refine ⟨h.here, h.here_names, fun x hx => h.names x (List.mem_of_mem_filter hx),
    fun q hq bytes => ?_⟩
  have hne : out ≠ [] := fun hnil => hq (hnil ▸ List.nil_prefix)
  rw [get?_erase hne, if_neg hq, h.files q hq]

end IsFramed

/-! ## Work on the disk -/

namespace Action

theorem keeps_fail {α : Type} {I : Disk → Prop} {P : α → Prop} (trouble : Trouble) (p : Path) :
    Keeps I P (fun _ => True) (fail trouble p) := keeps_throw trivial

theorem keeps_locate (p : Path) : Keeps (IsFramed out d)
    (fun place => place = p.resolve d.here ∧ up ∉ place) (fun _ => True) (locate p) := by
  intro D hD
  rw [runFrom_locate]
  cases hplace : D.locate p with
  | error trouble => exact ⟨trivial, hD⟩
  | ok place => exact ⟨hD.up_not_mem_of_locate hplace, hD⟩

/-- Reading a file leaves the disk as it is. -/
theorem keeps_readFile (I : Disk → Prop) (p : Path) :
    Keeps I (fun _ => True) (fun _ => True) (readFile p) := by
  have hlocate : Keeps I (fun _ => True) (fun _ => True) (locate p) := by
    intro D hD
    rw [runFrom_locate]
    cases D.locate p with
    | error trouble => exact ⟨trivial, hD⟩
    | ok place => exact ⟨trivial, hD⟩
  refine keeps_get.bind fun D _ => hlocate.bind fun place _ => ?_
  split
  · exact keeps_pure trivial
  · exact keeps_fail _ _
  · exact keeps_fail _ _

theorem keeps_writeFile (h : out <+: p.resolve d.here) (bytes : List UInt8) :
    Keeps (IsFramed out d) (fun _ => True) (fun _ => True) (writeFile p bytes) := by
  intro D hD
  rw [writeFile, runFrom_bind, runFrom_locate]
  cases hplace : D.locate p with
  | error trouble => exact ⟨trivial, hD⟩
  | ok place =>
      obtain ⟨rfl, hup⟩ := hD.up_not_mem_of_locate hplace
      dsimp only
      by_cases hfolder : D.get? (p.resolve d.here) = some .folder
      · rw [runFrom_get_bind, hfolder]
        exact ⟨trivial, hD⟩
      · have hne : p.resolve d.here ≠ [] := fun hnil => hfolder (by rw [hnil]; rfl)
        have hwrite := runFrom_writeFile hplace bytes hfolder
        rw [writeFile, runFrom_locate_bind hplace] at hwrite
        rw [hwrite]
        exact ⟨trivial, hD.put hne hup fun hout => absurd h hout⟩

theorem keeps_removeFolder (h : out = p.resolve d.here) :
    Keeps (IsFramed out d) (fun _ => True) (fun _ => True) (removeFolder p) := by
  refine (keeps_locate p).bind fun place hplace => keeps_get.bind fun D _ => ?_
  obtain rfl : place = out := hplace.1.trans h.symm
  split
  · -- The folder is emptied, whether or not the path leads to it afterwards.
    refine (keeps_modify fun _ hD => hD.empty).bind fun _ _ =>
      (keeps_locate p).bind fun again hagain => ?_
    obtain rfl : again = place := hagain.1.trans hplace.1.symm
    exact keeps_modify fun _ hD => hD.erase
  · exact keeps_fail _ _
  · exact keeps_fail _ _

theorem keeps_makeFolders (welcome : Bool) (p : Path) :
    Keeps (IsFramed out d) (fun _ => True) (fun _ => True) (makeFolders welcome p) := by
  intro D hD
  have hkept : IsFramed out d (runFrom (makeFolders welcome p) D).2 :=
    invariant_makeFoldersFrom (IsFramed out d) (fun h hrun => h.of_makeFolder hrun) hD
  generalize runFrom (makeFolders welcome p) D = r at hkept ⊢
  rcases r with ⟨e | a, D'⟩
  · exact ⟨trivial, hkept⟩
  · exact ⟨trivial, hkept⟩

end Action

end

end Disk
end Stencil
