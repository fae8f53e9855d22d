import Stencil.Proofs.Site.Wipe

set_option autoImplicit false

/-! # Writing into the output folder

While files are written into the output folder, the disk around it stays as it is, and what stands
in it are the files written so far, in folders that the site has too (`IsSynced`). That is why
writing the next file cannot fail: where the site has a folder, there is a folder or nothing.
-/

namespace Stencil.Site

open Text Disk Action

/-- The output folder holds the files written so far, and mirrors the folders of the site. What a
file becomes is given by `output`, if it becomes a file. -/
structure IsSynced (root out : List Text) (output : List Text → Option (List UInt8)) (W : Disk)
    (done : List (List Text)) (D : Disk) : Prop where
  tree : D.IsTree
  here : D.here = W.here
  around : ∀ q, (out <+: q → q = out) → D.get? q = W.get? q
  file : ∀ s bytes, D.get? (out ++ s) = some (.file bytes) ↔ s ∈ done ∧ output s = some bytes
  folder : ∀ s, D.get? (out ++ s) = some .folder → W.get? (root ++ s) = some .folder
  source : ∀ s ∈ done, ∃ bytes, W.get? (root ++ s) = some (.file bytes)

section

variable {c : Config} {root out s : List Text} {output : List Text → Option (List UInt8)}
  {d W D : Disk} {done : List (List Text)} {bytes source : List UInt8}

/-- A file can be written below the output folder if no file is on the way and no folder stands
where it is written. -/
theorem exists_runFrom_writeOutput {front : List Text} {last : Text} (htree : D.IsTree)
    (hout : D.locate c.outputFolder = .ok out) (hfolder : D.get? out = some .folder)
    (hnames : ∀ n ∈ front ++ [last], n ≠ [char '.', char '.'])
    (hfree : ∀ t, t <+: front → ∀ bytes, D.get? (out ++ t) ≠ some (.file bytes))
    (hlast : D.get? (out ++ (front ++ [last])) ≠ some .folder) (bytes : List UInt8) :
    ∃ D₁, HasMade out front D D₁ ∧ D₁.get? (out ++ (front ++ [last])) ≠ some .folder ∧
      runFrom (writeOutput c (front ++ [last]) bytes) D
        = (.ok (), D₁.put (out ++ (front ++ [last])) (.file bytes)) := by
  have hfuel : front.length ≤ (c.outputFolder.segments ++ front).length := by simp
  obtain ⟨D₁, hmake, hmade⟩ := exists_hasMade htree hout hfolder
    (fun n hn => hnames n (by simp [hn])) hfree hfuel
  have hout₁ : D₁.locate c.outputFolder = .ok out :=
    locate_mono hmade.grows.here (fun _ => hmade.grows.eq_of_some) hout
  have hplace := locate_below_concat hmade.tree hout₁ hnames hmade.folder
  rw [← hmade.get?_concat] at hlast
  refine ⟨D₁, hmade, hlast, ?_⟩
  rw [writeOutput, List.dropLast_concat, makeFolders]
  exact (runFrom_bind_of_ok hmake _).trans (runFrom_writeFile hplace bytes hlast)

theorem IsWiped.isSynced (h : IsWiped c root out d W) (hroot : root <+: out) :
    IsSynced root out output W [] W := by
  refine ⟨h.tree, rfl, fun _ _ => rfl, fun s bytes => ?_, fun s hs => ?_, by simp⟩
  · constructor
    · intro hfile
      by_cases hnil : s = []
      · rw [hnil, List.append_nil, h.folder] at hfile
        cases hfile
      · rw [h.empty s hnil] at hfile
        cases hfile
    · rintro ⟨hmem, -⟩
      cases hmem
  · by_cases hnil : s = []
    · rw [hnil, List.append_nil]
      by_cases heq : root = out
      · rw [heq, h.folder]
      · exact h.tree.folder_of_prefix hroot (by rw [h.folder]; simp) heq
    · rw [h.empty s hnil] at hs
      cases hs

namespace IsSynced

theorem out_folder (h : IsSynced root out output W done D) (hW : IsWiped c root out d W) :
    D.get? out = some .folder :=
  (h.around out fun _ => rfl).trans hW.folder

/-- The folders of a wiped disk stay. -/
theorem folder_of_wiped (h : IsSynced root out output W done D) (hW : IsWiped c root out d W)
    {q : List Text} (hq : W.get? q = some .folder) : D.get? q = some .folder := by
  rw [h.around q, hq]
  rintro ⟨rest, rfl⟩
  by_cases hrest : rest = []
  · rw [hrest, List.append_nil]
  · rw [hW.empty rest hrest] at hq
    cases hq

theorem locate (h : IsSynced root out output W done D) (hW : IsWiped c root out d W) {p : Path}
    {place : List Text} (hp : W.locate p = .ok place) : D.locate p = .ok place :=
  locate_mono h.here (fun _ => h.folder_of_wiped hW) hp

/-- Files of the site that were not written into the output folder are where they were. -/
theorem get?_source (h : IsSynced root out output W done D) (hout : ¬ out <+: root ++ s) :
    D.get? (root ++ s) = W.get? (root ++ s) :=
  h.around _ fun hpre => absurd hpre hout

theorem locate_source (h : IsSynced root out output W done D) (hW : IsWiped c root out d W)
    {entry : Entry} (hs : W.get? (root ++ s) = some entry) :
    D.locate (c.root.below s) = .ok (root ++ s) := by
  have hentry : W.get? (root ++ s) ≠ none := by rw [hs]; simp
  refine locate_below_names (h.locate hW hW.root_at)
    (hW.tree.forall_mem_of_append hW.tree.name hentry) fun t ht hne => ?_
  refine h.folder_of_wiped hW (hW.tree.folder_of_prefix ((List.prefix_append_right_inj root).2 ht)
    hentry fun e => hne (List.append_cancel_left e))

theorem runFrom_readFile (h : IsSynced root out output W done D) (hW : IsWiped c root out d W)
    (hs : W.get? (root ++ s) = some (.file source)) (hout : ¬ out <+: root ++ s) :
    runFrom (readFile (c.root.below s)) D = (.ok source, D) :=
  Action.runFrom_readFile (h.locate_source hW hs) (by rw [h.get?_source hout, hs])

/-- A file that becomes nothing is done without writing. -/
theorem append_none (h : IsSynced root out output W done D)
    (hs : W.get? (root ++ s) = some (.file source)) (houtput : output s = none) :
    IsSynced root out output W (done ++ [s]) D := by
  refine { h with file := fun t bytes => ?_, source := ?_ }
  · rw [h.file, List.mem_append, List.mem_singleton]
    constructor
    · exact fun ⟨hmem, ht⟩ => ⟨.inl hmem, ht⟩
    · rintro ⟨hmem | rfl, ht⟩
      · exact ⟨hmem, ht⟩
      · rw [houtput] at ht
        cases ht
  · intro t ht
    rcases List.mem_append.1 ht with ht | ht
    · exact h.source t ht
    · rw [List.mem_singleton.1 ht]
      exact ⟨source, hs⟩

/-- Making folders that the site has too keeps the output folder in order. -/
theorem of_hasMade {front : List Text} {D₁ : Disk} (h : IsSynced root out output W done D)
    (hW : IsWiped c root out d W) (hway : ∀ t, t <+: front → W.get? (root ++ t) = some .folder)
    (hmade : HasMade out front D D₁) : IsSynced root out output W done D₁ := by
  refine ⟨hmade.tree, hmade.grows.here.trans h.here, fun q hq => ?_, fun t bytes => ?_,
    fun t ht => ?_, h.source⟩
  · rw [← h.around q hq]
    by_cases hqout : q = out
    · rw [hqout, h.out_folder hW]
      exact hmade.grows.eq_of_some (h.out_folder hW)
    · exact hmade.elsewhere q fun hbetween => hqout (hq hbetween.1)
  · rw [hmade.grows.file_iff, h.file]
  · by_cases hbetween : out ++ t <+: out ++ front
    · exact hway t ((List.prefix_append_right_inj out).1 hbetween)
    · rw [hmade.elsewhere _ fun h => hbetween h.2] at ht
      exact h.folder t ht

/-- Writing what a file of the site becomes keeps the output folder in order. -/
theorem put {front : List Text} {last : Text} (h : IsSynced root out output W done D)
    (hlast : last ≠ [char '.', char '.']) (hfront : D.get? (out ++ front) = some .folder)
    (hs : W.get? (root ++ (front ++ [last])) = some (.file source))
    (houtput : output (front ++ [last]) = some bytes) :
    IsSynced root out output W (done ++ [front ++ [last]])
      (D.put (out ++ (front ++ [last])) (.file bytes)) := by
  have hput : ∀ q, (D.put (out ++ (front ++ [last])) (.file bytes)).get? q
      = if q = out ++ (front ++ [last]) then some (.file bytes) else D.get? q :=
    fun q => get?_put (by simp)
  refine ⟨?_, h.here, fun q hq => ?_, fun t b => ?_, fun t ht => ?_, fun t ht => ?_⟩
  · rw [← List.append_assoc]
    refine h.tree.put hfront hlast (.inl fun hfolder => ?_)
    rw [List.append_assoc] at hfolder
    rw [h.folder _ hfolder] at hs
    cases hs
  · rw [hput, if_neg, h.around q hq]
    rintro rfl
    have heq := congrArg List.length (hq (List.prefix_append _ _))
    simp at heq
  · rw [hput]
    by_cases ht : t = front ++ [last]
    · subst ht
      rw [if_pos rfl, houtput]
      simp
    · rw [if_neg fun e => ht (List.append_cancel_left e), h.file]
      simp [ht]
  · rw [hput] at ht
    split at ht
    · cases ht
    · exact h.folder t ht
  · rcases List.mem_append.1 ht with ht | ht
    · exact h.source t ht
    · rw [List.mem_singleton.1 ht]
      exact ⟨source, hs⟩

/-- A file of the site can be written into the output folder, and it is written there. -/
theorem exists_writeOutput (h : IsSynced root out output W done D) (hW : IsWiped c root out d W)
    (hroot : W.get? root = some .folder) (hs : W.get? (root ++ s) = some (.file source))
    (houtput : output s = some bytes) :
    ∃ D', runFrom (writeOutput c s bytes) D = (.ok (), D') ∧
      IsSynced root out output W (done ++ [s]) D' := by
  rcases List.eq_nil_or_concat' s with rfl | ⟨front, last, rfl⟩
  · rw [List.append_nil, hroot] at hs
    cases hs
  · have hentry : W.get? (root ++ (front ++ [last])) ≠ none := by rw [hs]; simp
    have hnames := hW.tree.forall_mem_of_append hW.tree.name hentry
    have hway : ∀ t, t <+: front → W.get? (root ++ t) = some .folder := by
      intro t ht
      refine hW.tree.folder_of_prefix
        ((List.prefix_append_right_inj root).2 (ht.trans (List.prefix_append _ _))) hentry
        fun e => ?_
      exact not_concat_prefix front last (List.append_cancel_left e ▸ ht)
    -- A file on the way would be one of the site, where there are folders on the way.
    have hfree : ∀ t, t <+: front → ∀ bytes, D.get? (out ++ t) ≠ some (.file bytes) := by
      intro t ht bytes hfile
      obtain ⟨b, hb⟩ := h.source t ((h.file t bytes).1 hfile).1
      rw [hway t ht] at hb
      cases hb
    have hplace : D.get? (out ++ (front ++ [last])) ≠ some .folder := by
      intro hfolder
      rw [h.folder _ hfolder] at hs
      cases hs
    obtain ⟨D₁, hmade, -, hrun⟩ := exists_runFrom_writeOutput h.tree (h.locate hW hW.out_at)
      (h.out_folder hW) hnames hfree hplace bytes
    have h₁ := h.of_hasMade hW hway hmade
    exact ⟨_, hrun, h₁.put (hnames last (by simp)) hmade.folder hs houtput⟩

end IsSynced

end

end Stencil.Site
