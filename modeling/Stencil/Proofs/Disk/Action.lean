import Stencil.Proofs.Disk.Tree

set_option autoImplicit false

/-! # How work on a disk ends

`runFrom` gives how work ends that starts from a state. Reading leaves the disk as it is, and
making folders only adds to it (`Grows`): below a folder that exists, the folders on the way to a
place can be made whenever no file is in the way (`exists_hasMade`), and a folder that
is made anew was not there before (`exists_of_makeFoldersFrom`).
-/

namespace Stencil

/-- How work that starts from a state ends: its result or its failure, and the state then. -/
def runFrom {ε σ α : Type} (x : ExceptT ε (StateM σ) α) (s : σ) : Except ε α × σ :=
  Id.run (StateT.run (ExceptT.run x) s)

section

variable {ε σ α β : Type} {x : ExceptT ε (StateM σ) α} {s s' : σ}

theorem runFrom_bind (x : ExceptT ε (StateM σ) α) (f : α → ExceptT ε (StateM σ) β) (s : σ) :
    runFrom (x >>= f) s =
      match runFrom x s with
      | (.ok a, s') => runFrom (f a) s'
      | (.error e, s') => (.error e, s') := by
  unfold runFrom
  rw [ExceptT.run_bind, StateT.run_bind]
  cases h : StateT.run (ExceptT.run x) s with
  | mk r s' => cases r <;> rfl

theorem runFrom_bind_of_ok {a : α} (h : runFrom x s = (.ok a, s'))
    (f : α → ExceptT ε (StateM σ) β) : runFrom (x >>= f) s = runFrom (f a) s' := by
  rw [runFrom_bind, h]

/-- Work in two steps returns when both do. -/
theorem runFrom_bind_eq_ok {f : α → ExceptT ε (StateM σ) β} {b : β} {s'' : σ} :
    runFrom (x >>= f) s = (.ok b, s'') ↔
      ∃ a s', runFrom x s = (.ok a, s') ∧ runFrom (f a) s' = (.ok b, s'') := by
  constructor
  · intro h
    rw [runFrom_bind] at h
    split at h
    · rename_i a s' hx
      exact ⟨a, s', hx, h⟩
    · cases h
  · rintro ⟨a, s', hx, hf⟩
    rw [runFrom_bind_of_ok hx, hf]

theorem runFrom_pure (a : α) (s : σ) :
    runFrom (pure a : ExceptT ε (StateM σ) α) s = (.ok a, s) := rfl

theorem runFrom_get (s : σ) : runFrom (get : ExceptT ε (StateM σ) σ) s = (.ok s, s) := rfl

theorem runFrom_modify (f : σ → σ) (s : σ) :
    runFrom (modify f : ExceptT ε (StateM σ) Unit) s = (.ok (), f s) := rfl

theorem runFrom_get_bind (f : σ → ExceptT ε (StateM σ) β) (s : σ) :
    runFrom (get >>= f) s = runFrom (f s) s :=
  runFrom_bind_of_ok (runFrom_get s) f

theorem runFrom_tryCatch (x : ExceptT ε (StateM σ) α) (f : ε → ExceptT ε (StateM σ) α) (s : σ) :
    runFrom (tryCatch x f) s =
      match runFrom x s with
      | (.ok a, s') => (.ok a, s')
      | (.error e, s') => runFrom (f e) s' := by
  have hrun : ExceptT.run (tryCatch x f) = ExceptT.run x >>= fun
      | .ok a => pure (.ok a)
      | .error e => ExceptT.run (f e) := rfl
  unfold runFrom
  rw [hrun, StateT.run_bind]
  cases h : StateT.run (ExceptT.run x) s with
  | mk r s' => cases r <;> rfl

end

namespace Disk

open Text

variable {d d' : Disk} {place : List Text} {p : Path}

/-! ## Disks that grow -/

/-- The second disk has what the first one has, and folders at some more places. -/
structure Grows (d d' : Disk) : Prop where
  here : d'.here = d.here
  get? : ∀ q, d'.get? q = d.get? q ∨ d.get? q = none ∧ d'.get? q = some .folder

namespace Grows

theorem refl (d : Disk) : Grows d d := ⟨rfl, fun _ => .inl rfl⟩

theorem trans {d'' : Disk} (h : Grows d d') (h' : Grows d' d'') : Grows d d'' := by
  refine ⟨h'.here.trans h.here, fun q => ?_⟩
  rcases h.get? q with hq | ⟨hnone, hq⟩
  · rw [← hq]
    exact h'.get? q
  · rcases h'.get? q with hq' | ⟨hnone', -⟩
    · exact .inr ⟨hnone, hq'.trans hq⟩
    · rw [hq] at hnone'
      cases hnone'

theorem eq_of_some (h : Grows d d') {q : List Text} {entry : Entry} (hq : d.get? q = some entry) :
    d'.get? q = some entry := by
  rcases h.get? q with hq' | ⟨hnone, -⟩
  · rw [hq', hq]
  · rw [hq] at hnone
    cases hnone

theorem file_iff (h : Grows d d') {q : List Text} {bytes : List UInt8} :
    d'.get? q = some (.file bytes) ↔ d.get? q = some (.file bytes) := by
  rcases h.get? q with hq | ⟨hnone, hq⟩
  · rw [hq]
  · rw [hq, hnone]
    simp

theorem none_of_none (h : Grows d d') {q : List Text} (hq : d'.get? q = none) :
    d.get? q = none := by
  rcases h.get? q with hq' | ⟨hnone, -⟩
  · rw [← hq', hq]
  · exact hnone

end Grows

theorem grows_put_folder (hplace : d.get? place = none) : Grows d (d.put place .folder) := by
  have hne : place ≠ [] := by
    rintro rfl
    cases hplace
  refine ⟨rfl, fun q => ?_⟩
  rw [get?_put hne]
  by_cases hq : q = place
  · rw [if_pos hq, hq]
    exact .inr ⟨hplace, rfl⟩
  · rw [if_neg hq]
    exact .inl rfl

/-- Away from what is below a place, the second disk has what the first one has, and folders at
some more places. -/
structure GrowsAround (out : List Text) (d d' : Disk) : Prop where
  here : d'.here = d.here
  get? : ∀ q, (out <+: q → q = out) →
    d'.get? q = d.get? q ∨ d.get? q = none ∧ d'.get? q = some .folder

/-! ## Reading -/

namespace Action

theorem runFrom_locate (p : Path) (d : Disk) :
    runFrom (locate p) d =
      match d.locate p with
      | .ok place => (.ok place, d)
      | .error trouble => (.error ⟨trouble, p⟩, d) := by
  rw [locate, runFrom_get_bind]
  cases d.locate p <;> rfl

theorem runFrom_locate_of_ok (h : d.locate p = .ok place) :
    runFrom (locate p) d = (.ok place, d) := by
  rw [runFrom_locate, h]

theorem runFrom_locate_bind {α : Type} (h : d.locate p = .ok place)
    (f : List Text → Action α) : runFrom (locate p >>= f) d = runFrom (f place) d :=
  runFrom_bind_of_ok (runFrom_locate_of_ok h) f

theorem runFrom_readFile (h : d.locate p = .ok place) {bytes : List UInt8}
    (hfile : d.get? place = some (.file bytes)) : runFrom (readFile p) d = (.ok bytes, d) := by
  rw [readFile, runFrom_get_bind, runFrom_locate_bind h, hfile]
  rfl

/-- What is read is what stands there, and the disk stays as it is. -/
theorem of_runFrom_readFile {bytes : List UInt8} (h : d.locate p = .ok place)
    (hrun : runFrom (readFile p) d = (.ok bytes, d')) :
    d.get? place = some (.file bytes) ∧ d' = d := by
  rw [readFile, runFrom_get_bind, runFrom_locate_bind h] at hrun
  split at hrun
  · rename_i hfile
    cases hrun
    exact ⟨hfile, rfl⟩
  · cases hrun
  · cases hrun

/-! ## Writing -/

theorem runFrom_writeFile (h : d.locate p = .ok place) (bytes : List UInt8)
    (hfree : d.get? place ≠ some .folder) :
    runFrom (writeFile p bytes) d = (.ok (), d.put place (.file bytes)) := by
  rw [writeFile, runFrom_locate_bind h, runFrom_get_bind]
  split
  · rename_i hfolder
    exact absurd hfolder hfree
  · exact runFrom_modify _ _

theorem of_runFrom_removeFolder (h : d.locate p = .ok place)
    (hrun : runFrom (removeFolder p) d = (.ok (), d')) :
    d.get? place = some .folder ∧ d' = d.erase place := by
  rw [removeFolder, runFrom_locate_bind h, runFrom_get_bind] at hrun
  split at hrun
  · rename_i hfolder
    rw [runFrom_bind, runFrom_modify] at hrun
    dsimp only at hrun
    cases hagain : (d.empty place).locate p with
    | error trouble =>
        rw [runFrom_bind, runFrom_locate, hagain] at hrun
        cases hrun
    | ok again =>
        obtain rfl : again = place := by
          rw [← resolve_eq_of_locate hagain, ← resolve_eq_of_locate h, here_empty]
        rw [runFrom_locate_bind hagain, runFrom_modify, erase_empty] at hrun
        cases hrun
        exact ⟨hfolder, rfl⟩
  · cases hrun
  · cases hrun

theorem runFrom_makeFolder (p : Path) (d : Disk) :
    runFrom (makeFolder p) d =
      match d.locate p with
      | .ok place =>
          if (d.get? place).isSome then (.error ⟨.present, p⟩, d) else (.ok (), d.put place .folder)
      | .error trouble => (.error ⟨trouble, p⟩, d) := by
  cases hplace : d.locate p with
  | error trouble =>
      rw [makeFolder, runFrom_bind, runFrom_locate, hplace]
  | ok place =>
      rw [makeFolder, runFrom_locate_bind hplace, runFrom_get_bind]
      dsimp only
      split <;> rfl

theorem of_runFrom_makeFolder (h : runFrom (makeFolder p) d = (.ok (), d')) :
    ∃ place, d.locate p = .ok place ∧ d.get? place = none ∧ d' = d.put place .folder := by
  rw [runFrom_makeFolder] at h
  split at h
  · rename_i place hplace
    split at h
    · cases h
    · rename_i hnone
      cases h
      exact ⟨place, hplace, by simpa using hnone, rfl⟩
  · cases h

/-- A folder that cannot be made leaves the disk as it is. -/
theorem eq_of_runFrom_makeFolder {fault : Fault}
    (h : runFrom (makeFolder p) d = (.error fault, d')) : d' = d := by
  rw [runFrom_makeFolder] at h
  split at h
  · split at h
    · cases h
      rfl
    · cases h
  · cases h
    rfl

theorem runFrom_makeFolderIfNew (welcome : Bool) (p : Path) (d : Disk) :
    runFrom (makeFolderIfNew welcome p) d =
      match runFrom (makeFolder p) d with
      | (.ok _, d') => (.ok (), d')
      | (.error fault, _) =>
          if fault.trouble = .missing || !welcome || !d.isFolder p then (.error fault, d)
          else (.ok (), d) := by
  rw [makeFolderIfNew, runFrom_tryCatch]
  cases hmade : runFrom (makeFolder p) d with
  | mk result d' =>
      cases result with
      | ok _ => rfl
      | error fault =>
          obtain rfl := eq_of_runFrom_makeFolder hmade
          dsimp only
          rw [runFrom_get_bind]
          split <;> rfl

/-! ## Folders on the way -/

section

variable {slashes : Nat} (I : Disk → Prop)
  (hstep : ∀ {segments : List Text} {d d' : Disk}, I d →
    runFrom (makeFolder ⟨slashes, segments⟩) d = (.ok (), d') → I d')

include hstep

theorem invariant_makeFolderIfNew {welcome : Bool} {segments : List Text} (h : I d) :
    I (runFrom (makeFolderIfNew welcome ⟨slashes, segments⟩) d).2 := by
  rw [runFrom_makeFolderIfNew]
  split
  · rename_i d' hmade
    exact hstep h hmade
  · split <;> exact h

/-- What the making of each single folder keeps, the making of all of them keeps. -/
theorem invariant_makeFoldersFrom {welcome : Bool} {k : Nat} {segments : List Text} (h : I d) :
    I (runFrom (makeFoldersFrom welcome slashes k segments) d).2 := by
  induction k generalizing welcome segments d with
  | zero => exact invariant_makeFolderIfNew I hstep h
  | succ k ih =>
      rw [makeFoldersFrom, runFrom_tryCatch]
      split
      · rename_i d' hmade
        exact hstep h hmade
      · rename_i fault d' hfault
        obtain rfl := eq_of_runFrom_makeFolder hfault
        by_cases hmissing : fault.trouble = .missing
        · rw [if_pos hmissing]
          by_cases hempty : segments.isEmpty = true
          · rw [if_pos hempty]
            exact h
          · rw [if_neg hempty]
            show I (runFrom (makeFoldersFrom true slashes k segments.dropLast >>= fun _ =>
              makeFolderIfNew welcome ⟨slashes, segments⟩) d').2
            have hway : I (runFrom (makeFoldersFrom true slashes k segments.dropLast) d').2 := ih h
            rw [runFrom_bind]
            split
            · rename_i d'' hrun
              rw [hrun] at hway
              exact invariant_makeFolderIfNew I hstep hway
            · rename_i d'' hrun
              rwa [hrun] at hway
        · rw [if_neg hmissing, runFrom_get_bind]
          split <;> exact h

/-- A folder that must be new is made in the end, by a step from a disk on which the folders on
the way have been made. -/
theorem exists_of_makeFoldersFrom {k : Nat} {segments : List Text} (h : I d)
    (hrun : runFrom (makeFoldersFrom false slashes k segments) d = (.ok (), d')) :
    ∃ d₁, I d₁ ∧ runFrom (makeFolder ⟨slashes, segments⟩) d₁ = (.ok (), d') := by
  have hlast : ∀ {d : Disk}, I d →
      runFrom (makeFolderIfNew false ⟨slashes, segments⟩) d = (.ok (), d') →
      ∃ d₁, I d₁ ∧ runFrom (makeFolder ⟨slashes, segments⟩) d₁ = (.ok (), d') := by
    intro d h hrun
    rw [runFrom_makeFolderIfNew] at hrun
    split at hrun
    · rename_i d'' hmade
      cases hrun
      exact ⟨d, h, hmade⟩
    · simp at hrun
  cases k with
  | zero => exact hlast h hrun
  | succ k =>
      rw [makeFoldersFrom, runFrom_tryCatch] at hrun
      split at hrun
      · rename_i d'' hmade
        cases hrun
        exact ⟨d, h, hmade⟩
      · rename_i fault d'' hfault
        obtain rfl := eq_of_runFrom_makeFolder hfault
        by_cases hmissing : fault.trouble = .missing
        · rw [if_pos hmissing] at hrun
          by_cases hempty : segments.isEmpty = true
          · rw [if_pos hempty] at hrun
            cases hrun
          · rw [if_neg hempty] at hrun
            obtain ⟨_, d₁, hway, hrun⟩ := runFrom_bind_eq_ok.1 hrun
            have hkept : I (runFrom (makeFoldersFrom true slashes k segments.dropLast) d'').2 :=
              invariant_makeFoldersFrom I hstep h
            rw [hway] at hkept
            exact hlast hkept hrun
        · rw [if_neg hmissing, runFrom_get_bind] at hrun
          simp at hrun
          cases hrun

end

/-- A folder that exists already is as good as one that is made. -/
theorem runFrom_makeFoldersFrom_of_folder (hplace : d.locate p = .ok place)
    (hfolder : d.get? place = some .folder) (k : Nat) :
    runFrom (makeFoldersFrom true p.slashes k p.segments) d = (.ok (), d) := by
  have hmade : runFrom (makeFolder p) d = (.error ⟨.present, p⟩, d) := by
    rw [runFrom_makeFolder, hplace]
    simp [hfolder]
  have hisFolder : d.isFolder p = true := by
    rw [isFolder, at?, hplace]
    simp [hfolder]
  cases k with
  | zero =>
      rw [makeFoldersFrom, runFrom_makeFolderIfNew, hmade]
      simp [hisFolder]
  | succ k =>
      rw [makeFoldersFrom, runFrom_tryCatch, hmade]
      dsimp only
      rw [if_neg (by simp), runFrom_get_bind]
      simp [hisFolder, runFrom_pure]

/-- The second disk has all the folders that lead from one place to another. -/
structure HasMade (top names : List Text) (d d' : Disk) : Prop where
  tree : d'.IsTree
  grows : Grows d d'
  folder : d'.get? (top ++ names) = some .folder
  elsewhere : ∀ q, ¬ (top <+: q ∧ q <+: top ++ names) → d'.get? q = d.get? q

section

variable {base : Path} {top names : List Text} {name : Text}

theorem not_concat_prefix (names : List Text) (name : Text) : ¬ names ++ [name] <+: names := by
  intro hpre
  have hlength := hpre.length_le
  rw [List.length_append, List.length_singleton] at hlength
  omega

namespace HasMade

/-- All that leads to the last folder is folders. -/
theorem folder_of_way (h : HasMade top names d d') {q : List Text} (hq : q <+: top ++ names) :
    d'.get? q = some .folder := by
  by_cases heq : q = top ++ names
  · rw [heq, h.folder]
  · exact h.tree.folder_of_prefix hq (by rw [h.folder]; simp) heq

/-- What stands in the last folder is what stood there before. -/
theorem get?_concat (h : HasMade top names d d') (name : Text) :
    d'.get? (top ++ (names ++ [name])) = d.get? (top ++ (names ++ [name])) :=
  h.elsewhere _ fun hbetween =>
    not_concat_prefix names name ((List.prefix_append_right_inj top).1 hbetween.2)

end HasMade

/-- A path through a folder that is missing leads nowhere. -/
theorem foldlM_step_missing (htop : d.get? top = some .folder)
    (hnames : ∀ name ∈ names, name ≠ [char '.', char '.'])
    (hfree : ∀ t, t <+: names → ∀ bytes, d.get? (top ++ t) ≠ some (.file bytes))
    (hmissing : d.get? (top ++ names) = none) (name : Text) :
    (names ++ [name]).foldlM d.step top = .error .missing := by
  induction names generalizing top with
  | nil =>
      rw [List.append_nil, htop] at hmissing
      cases hmissing
  | cons first names ih =>
      have hstep : d.step top first = .ok (top ++ [first]) := by
        rw [step, htop, Path.follow, if_neg (hnames first List.mem_cons_self)]
      have hshift : ∀ t : List Text, top ++ first :: t = top ++ [first] ++ t := fun t => by simp
      rw [List.cons_append, List.foldlM_cons, hstep]
      show (names ++ [name]).foldlM d.step (top ++ [first]) = _
      cases hfirst : d.get? (top ++ [first]) with
      | none =>
          -- The next segment, a name or the last one, asks for the folder that is missing.
          have hnext : ∀ next, d.step (top ++ [first]) next = .error .missing := fun next => by
            rw [step, hfirst]
          cases names with
          | nil =>
              rw [List.nil_append, List.foldlM_cons, hnext]
              rfl
          | cons second names =>
              rw [List.cons_append, List.foldlM_cons, hnext]
              rfl
      | some entry =>
          cases entry with
          | file bytes =>
              exact absurd hfirst (hfree [first] (List.cons_prefix_cons.2 ⟨rfl, List.nil_prefix⟩)
                bytes)
          | folder =>
              refine ih hfirst (fun n hn => hnames n (List.mem_cons_of_mem _ hn))
                (fun t ht => ?_) ?_
              · rw [← hshift]
                exact hfree (first :: t) (List.cons_prefix_cons.2 ⟨rfl, ht⟩)
              · rw [← hshift]
                exact hmissing

/-- One more folder is made in a folder that exists. -/
theorem hasMade_put (htree : d.IsTree) (hfolder : d.get? (top ++ names) = some .folder)
    (hname : name ≠ [char '.', char '.']) (hnone : d.get? (top ++ (names ++ [name])) = none) :
    HasMade top (names ++ [name]) d (d.put (top ++ (names ++ [name])) .folder) := by
  have hne : top ++ (names ++ [name]) ≠ [] := by simp
  refine ⟨?_, grows_put_folder hnone, ?_, fun q hq => ?_⟩
  · rw [← List.append_assoc]
    exact htree.put hfolder hname (.inr rfl)
  · rw [get?_put hne, if_pos rfl]
  · rw [get?_put hne, if_neg]
    rintro rfl
    exact hq ⟨List.prefix_append _ _, List.prefix_refl _⟩

theorem HasMade.append {d₁ : Disk} (h : HasMade top names d d₁)
    (h' : HasMade top (names ++ [name]) d₁ d') : HasMade top (names ++ [name]) d d' := by
  refine ⟨h'.tree, h.grows.trans h'.grows, h'.folder, fun q hq => ?_⟩
  rw [h'.elsewhere q hq, h.elsewhere q fun hbetween => hq ⟨hbetween.1, ?_⟩]
  rw [← List.append_assoc]
  exact hbetween.2.trans (List.prefix_append _ _)

/-- A path leads on to a name in a folder it leads to. -/
theorem locate_below_concat (htree : d.IsTree) (hbase : d.locate base = .ok top)
    (hnames : ∀ n ∈ names ++ [name], n ≠ [char '.', char '.'])
    (hfolder : d.get? (top ++ names) = some .folder) :
    d.locate (base.below (names ++ [name])) = .ok (top ++ (names ++ [name])) := by
  refine locate_below_names hbase hnames fun t ht hne => ?_
  rcases List.prefix_concat_iff.1 ht with rfl | ht
  · exact absurd rfl hne
  · by_cases heq : t = names
    · rw [heq, hfolder]
    · exact htree.folder_of_prefix ((List.prefix_append_right_inj top).2 ht)
        (by rw [hfolder]; simp) fun e => heq (List.append_cancel_left e)

/-- A folder can be made in a folder that exists. -/
theorem runFrom_makeFolder_concat (htree : d.IsTree) (hbase : d.locate base = .ok top)
    (hnames : ∀ n ∈ names ++ [name], n ≠ [char '.', char '.'])
    (hfolder : d.get? (top ++ names) = some .folder)
    (hnone : d.get? (top ++ (names ++ [name])) = none) :
    runFrom (makeFolder ⟨base.slashes, base.segments ++ (names ++ [name])⟩) d
      = (.ok (), d.put (top ++ (names ++ [name])) .folder) := by
  have hplace := locate_below_concat htree hbase hnames hfolder
  rw [Path.below] at hplace
  rw [runFrom_makeFolder, hplace]
  simp [hnone]

/-- A folder cannot be made in a folder that is missing. -/
theorem runFrom_makeFolder_missing (name : Text) (hbase : d.locate base = .ok top)
    (htop : d.get? top = some .folder) (hnames : ∀ n ∈ names, n ≠ [char '.', char '.'])
    (hfree : ∀ t, t <+: names → ∀ bytes, d.get? (top ++ t) ≠ some (.file bytes))
    (hmissing : d.get? (top ++ names) = none) :
    runFrom (makeFolder ⟨base.slashes, base.segments ++ (names ++ [name])⟩) d
      = (.error ⟨.missing, base.below (names ++ [name])⟩, d) := by
  have hnowhere : d.locate (base.below (names ++ [name])) = .error .missing := by
    rw [locate_below hbase, foldlM_step_missing htop hnames hfree hmissing]
  rw [Path.below] at hnowhere ⊢
  rw [runFrom_makeFolder, hnowhere]

/-- A folder that is missing is made after the folders around it. -/
theorem runFrom_makeFoldersFrom_succ {segments : List Text} {segment : Text} {slashes k : Nat}
    {fault : Fault} {d₁ : Disk}
    (hfault : runFrom (makeFolder ⟨slashes, segments ++ [segment]⟩) d = (.error fault, d))
    (hmissing : fault.trouble = .missing)
    (hway : runFrom (makeFoldersFrom true slashes k segments) d = (.ok (), d₁)) :
    runFrom (makeFoldersFrom true slashes (k + 1) (segments ++ [segment])) d
      = runFrom (makeFolderIfNew true ⟨slashes, segments ++ [segment]⟩) d₁ := by
  rw [makeFoldersFrom, runFrom_tryCatch, hfault]
  dsimp only
  rw [if_pos hmissing, if_neg (by simp), List.dropLast_concat]
  show runFrom (makeFoldersFrom true slashes k segments >>= fun _ =>
    makeFolderIfNew true ⟨slashes, segments ++ [segment]⟩) d = _
  rw [runFrom_bind_of_ok hway]

/-- The folders on the way from a folder to a place can be made when no file is in the way. -/
theorem exists_hasMade (htree : d.IsTree) (hbase : d.locate base = .ok top)
    (htop : d.get? top = some .folder) (hnames : ∀ name ∈ names, name ≠ [char '.', char '.'])
    (hfree : ∀ t, t <+: names → ∀ bytes, d.get? (top ++ t) ≠ some (.file bytes))
    {k : Nat} (hk : names.length ≤ k) :
    ∃ d', runFrom (makeFoldersFrom true base.slashes k (base.segments ++ names)) d = (.ok (), d') ∧
      HasMade top names d d' := by
  induction names using List.reverseRecOn generalizing k with
  | nil =>
      rw [List.append_nil]
      refine ⟨d, runFrom_makeFoldersFrom_of_folder hbase htop k, htree, .refl d, ?_, fun _ _ => rfl⟩
      rw [List.append_nil, htop]
  | append_singleton names name ih =>
      have hway : ∀ n ∈ names, n ≠ [char '.', char '.'] := fun n hn => hnames n (by simp [hn])
      have hname := hnames name (by simp)
      have hfree' : ∀ t, t <+: names → ∀ bytes, d.get? (top ++ t) ≠ some (.file bytes) :=
        fun t ht => hfree t (ht.trans (List.prefix_append _ _))
      rw [List.length_append, List.length_singleton] at hk
      obtain ⟨k, rfl⟩ : ∃ n, k = n + 1 := ⟨k - 1, by omega⟩
      cases hparent : d.get? (top ++ names) with
      | some entry =>
          cases entry with
          | file bytes => exact absurd hparent (hfree' names (List.prefix_refl _) bytes)
          | folder =>
              cases hlast : d.get? (top ++ (names ++ [name])) with
              | none =>
                  -- The last folder is all that is missing.
                  refine ⟨_, ?_, hasMade_put htree hparent hname hlast⟩
                  rw [makeFoldersFrom, runFrom_tryCatch,
                    runFrom_makeFolder_concat htree hbase hnames hparent hlast]
              | some entry =>
                  cases entry with
                  | file bytes => exact absurd hlast (hfree _ (List.prefix_refl _) bytes)
                  | folder =>
                      have hplace := locate_below_concat htree hbase hnames hparent
                      exact ⟨d, runFrom_makeFoldersFrom_of_folder hplace hlast (k + 1), htree,
                        .refl d, hlast, fun _ _ => rfl⟩
      | none =>
          -- The folders on the way are made first, and the last one in them.
          obtain ⟨d₁, hrun₁, hmade₁⟩ := ih hway hfree' (k := k) (by omega)
          have hbase₁ : d₁.locate base = .ok top :=
            locate_mono hmade₁.grows.here (fun q hq => hmade₁.grows.eq_of_some hq) hbase
          have hnone₁ : d₁.get? (top ++ (names ++ [name])) = none := by
            rw [hmade₁.get?_concat, ← List.append_assoc]
            exact htree.get?_append_eq_none hparent _
          have hmade := runFrom_makeFolder_concat hmade₁.tree hbase₁ hnames hmade₁.folder hnone₁
          refine ⟨_, ?_, hmade₁.append (hasMade_put hmade₁.tree hmade₁.folder hname hnone₁)⟩
          have hfault := runFrom_makeFolder_missing name hbase htop hway hfree' hparent
          rw [← List.append_assoc] at hfault hmade ⊢
          rw [runFrom_makeFoldersFrom_succ hfault rfl hrun₁, runFrom_makeFolderIfNew, hmade]

end

end Action
end Disk
end Stencil
