import Stencil.Proofs.Flow.Reading

set_option autoImplicit false

/-! # The style sheets of a flow

A flow may be given with its style sheets taken out and put into one, at the end of the head or,
without a head, at its end. That moves no other chunk, so the comments stay as they are.
-/

namespace Stencil.Html

open Text

/-- The name of the element that the style sheet is put at the end of. -/
def headName : Text := "head".text

namespace Chunk

/-- The text of a style sheet. -/
def sheet? : Chunk → Option Text
  | raw t s => if t.name = sheetName then some s else none
  | _ => none

/-- The content of a comment. -/
def comment? : Chunk → Option Text
  | comment s => some s
  | _ => none

/-- A style sheet without attributes. -/
def ofSheet (css : Text) : Chunk := raw (.bare sheetName) css

theorem exists_of_sheet? {c : Chunk} {css : Text} (h : c.sheet? = some css) :
    ∃ t, c = raw t css ∧ t.name = sheetName := by
  cases c with
  | raw t s =>
      rw [sheet?] at h
      split at h
      · rename_i hname
        obtain rfl := Option.some.inj h
        exact ⟨t, rfl, hname⟩
      · cases h
  | _ => cases h

theorem comment?_eq_none_of_sheet? {c : Chunk} (h : c.sheet?.isSome = true) : c.comment? = none := by
  obtain ⟨css, hcss⟩ := Option.isSome_iff_exists.1 h
  obtain ⟨t, rfl, -⟩ := exists_of_sheet? hcss
  rfl

end Chunk

/-! ## The hoisted flow -/

namespace Flow

/-- The texts of the style sheets of a flow, in order. -/
def sheets (f : Flow) : List Text := f.chunks.filterMap Chunk.sheet?

/-- The contents of the comments of a flow, in order. -/
def comments (f : Flow) : List Text := f.chunks.filterMap Chunk.comment?

/-- A flow with a text put before it. -/
def prepend (s : Text) : Flow → Flow
  | text t => text (s ++ t)
  | chunk before c rest => chunk (s ++ before) c rest

/-- A flow without its style sheets. -/
def withoutSheets : Flow → Flow
  | text s => text s
  | chunk before c rest =>
      if c.sheet?.isSome then rest.withoutSheets.prepend before
      else chunk before c rest.withoutSheets

/-- A flow with a style sheet in front of its first end tag of a head, or else at its end. -/
def withSheet (css : Text) : Flow → Flow
  | text s => chunk s (.ofSheet css) (text [])
  | chunk before c rest =>
      if c = .closing headName then chunk before (.ofSheet css) (chunk [] c rest)
      else chunk before c (rest.withSheet css)

/-- A flow with all its style sheets in one, the last one first. -/
def hoisted (f : Flow) : Flow :=
  if f.sheets = [] then f else f.withoutSheets.withSheet (join ['\n'] f.sheets.reverse)

theorem source_prepend (s : Text) (f : Flow) : (f.prepend s).source = s ++ f.source := by
  cases f <;> simp [prepend, source]

theorem chunks_prepend (s : Text) (f : Flow) : (f.prepend s).chunks = f.chunks := by
  cases f <;> rfl

theorem chunks_withoutSheets (f : Flow) :
    f.withoutSheets.chunks = f.chunks.filter (!·.sheet?.isSome) := by
  induction f with
  | text s => rfl
  | chunk before c rest ih =>
      rw [withoutSheets, chunks, List.filter_cons]
      cases hc : c.sheet?.isSome
      · simp [chunks, ih]
      · simp [chunks_prepend, ih]

theorem withoutSheets_eq_self {f : Flow} (h : f.sheets = []) : f.withoutSheets = f := by
  induction f with
  | text s => rfl
  | chunk before c rest ih =>
      rw [sheets, chunks, List.filterMap_eq_nil_iff, List.forall_mem_cons] at h
      rw [withoutSheets, h.1, ih (List.filterMap_eq_nil_iff.2 h.2)]
      exact if_neg (by decide)

theorem sheets_withoutSheets (f : Flow) : f.withoutSheets.sheets = [] := by
  rw [sheets, chunks_withoutSheets, List.filterMap_eq_nil_iff]
  intro c hc
  simpa using (List.mem_filter.1 hc).2

theorem comments_withoutSheets (f : Flow) : f.withoutSheets.comments = f.comments := by
  rw [comments, comments, chunks_withoutSheets, List.filterMap_filter]
  refine List.filterMap_congr fun c _ => ?_
  cases hc : c.sheet?.isSome
  · rfl
  · exact (Chunk.comment?_eq_none_of_sheet? hc).symm

/-- The style sheet stands somewhere among the chunks. -/
theorem exists_chunks_withSheet (css : Text) (f : Flow) :
    ∃ a b, f.chunks = a ++ b ∧ (f.withSheet css).chunks = a ++ .ofSheet css :: b := by
  induction f with
  | text s => exact ⟨[], [], rfl, rfl⟩
  | chunk before c rest ih =>
      rw [withSheet]
      split
      · exact ⟨[], c :: rest.chunks, rfl, rfl⟩
      · obtain ⟨a, b, hab, hsheet⟩ := ih
        exact ⟨c :: a, b, by rw [chunks, hab]; rfl, by rw [chunks, hsheet]; rfl⟩

/-- Hoisting keeps the comments. -/
theorem comments_hoisted (f : Flow) : f.hoisted.comments = f.comments := by
  rw [hoisted]
  split
  · rfl
  · obtain ⟨a, b, hab, hsheet⟩ :=
      exists_chunks_withSheet (join ['\n'] f.sheets.reverse) f.withoutSheets
    rw [← comments_withoutSheets f, comments, comments, hsheet, hab, List.filterMap_append,
      List.filterMap_append]
    rfl

/-- Hoisting leaves one style sheet with the texts of all, if there was any. -/
theorem sheets_hoisted (f : Flow) :
    f.hoisted.sheets = if f.sheets = [] then [] else [join ['\n'] f.sheets.reverse] := by
  rw [hoisted]
  split
  · assumption
  · obtain ⟨a, b, hab, hsheet⟩ :=
      exists_chunks_withSheet (join ['\n'] f.sheets.reverse) f.withoutSheets
    have hnone := sheets_withoutSheets f
    rw [sheets, hab, List.filterMap_append, List.append_eq_nil_iff] at hnone
    rw [sheets, hsheet, List.filterMap_append, List.filterMap_cons, hnone.1, hnone.2]
    rfl

/-! ## Cut flows -/

/-- Whether the texts of a flow hold no tag, and its chunks are readable. -/
def IsCut : Flow → Prop
  | text s => char '<' ∉ s
  | chunk before c rest => char '<' ∉ before ∧ c.IsReadable ∧ rest.IsCut

theorem IsReadable.isCut {f : Flow} (h : f.IsReadable) : f.IsCut := by
  induction f with
  | text s => exact h.1
  | chunk before c rest ih => exact ⟨h.1.1, h.2.1, ih h.2.2⟩

theorem IsCut.prepend {s : Text} (hs : char '<' ∉ s) {f : Flow} (h : f.IsCut) :
    (f.prepend s).IsCut := by
  cases f with
  | text t => exact fun hm => (List.mem_append.1 hm).elim hs h
  | chunk before c rest => exact ⟨fun hm => (List.mem_append.1 hm).elim hs h.1, h.2⟩

theorem IsCut.withoutSheets {f : Flow} (h : f.IsCut) : f.withoutSheets.IsCut := by
  induction f with
  | text s => exact h
  | chunk before c rest ih =>
      obtain ⟨hbefore, hc, hrest⟩ := h
      rw [Flow.withoutSheets]
      split
      · exact (ih hrest).prepend hbefore
      · exact ⟨hbefore, hc, ih hrest⟩

end Flow

end Stencil.Html
