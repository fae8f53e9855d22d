import Stencil.Proofs.Document.Edit

set_option autoImplicit false

/-! # Flows

A flow is a source as it is cut into tags: running text, start tags, end tags, comments,
declarations, and the scripts and style sheets whose content is not markup. Unlike in a document, a tag need not have
a counterpart, so a flow also writes down an unclosed element, a stray end tag or an element
that is empty by its name.

Comments and raw text may look like markup. What stands in them is the hidden text of a flow.
-/

namespace Stencil.Html

open Text

/-! ## Chunks -/

/-- A part of a flow that is not running text: a start tag, an end tag, a comment, a declaration
or instruction between `<` and `>`, or a start tag with the raw text behind it and its end tag. -/
inductive Chunk where
  | opening (t : OpenTag)
  | closing (name : Text)
  | comment (s : Text)
  | declaration (s : Text)
  | raw (t : OpenTag) (s : Text)
  deriving DecidableEq, Repr

namespace Chunk

/-- The text of a chunk. -/
def source : Chunk → Text
  | opening t => t.source
  | closing name => endTagText name
  | comment s => "<!--".text ++ s ++ "-->".text
  | declaration s => [char '<'] ++ s ++ [char '>']
  | raw t s => t.source ++ (s ++ endTagText t.name)

/-- The start tag of a chunk. -/
def tag? : Chunk → Option OpenTag
  | opening t => some t
  | closing _ => none
  | comment _ => none
  | declaration _ => none
  | raw t _ => some t

/-- The text of a chunk in which no element begins. -/
def hidden : Chunk → Text
  | opening _ => []
  | closing _ => []
  | comment s => "<!--".text ++ s ++ "-->".text
  | declaration s => [char '<'] ++ s ++ [char '>']
  | raw t s => s ++ endTagText t.name

/-- Whether a selector takes the element that a chunk opens. -/
def selectedBy (sel : Selector) (c : Chunk) : Bool := c.tag?.any (·.selectedBy sel)

/-- A chunk with another start tag. -/
def retag (f : OpenTag → OpenTag) : Chunk → Chunk
  | opening t => opening (f t)
  | closing name => closing name
  | comment s => comment s
  | declaration s => declaration s
  | raw t s => raw (f t) s

/-- Whether a text between `<` and `>` is an instruction, or a declaration that is neither a
comment nor a marked section. -/
def isDeclaration : Text → Bool
  | '?' :: _ => true
  | '!' :: '-' :: '-' :: _ => false
  | '!' :: '[' :: _ => false
  | '!' :: _ => true
  | _ => false

/-- Whether a chunk is read as it is written: a comment, a declaration and a script end where
their first end is, and a style sheet opens no tag. -/
def WellFormed : Chunk → Prop
  | opening t => t.IsWritten ∧ t.name ∉ RawText.names
  | closing name => isElementName name = true
  | comment s => contains s ['-', '-'] = false
  | declaration s => isDeclaration s = true ∧ char '>' ∉ s
  | raw t s => t.IsWritten ∧ t.closesItself = false ∧ t.name ∈ RawText.names ∧
      contains s ['<', '/'] = false ∧ (t.name = sheetName → char '<' ∉ s)

instance : DecidablePred WellFormed
  | opening t => inferInstanceAs (Decidable (t.IsWritten ∧ t.name ∉ RawText.names))
  | closing name => inferInstanceAs (Decidable (isElementName name = true))
  | comment s => inferInstanceAs (Decidable (contains s ['-', '-'] = false))
  | declaration s => inferInstanceAs (Decidable (isDeclaration s = true ∧ char '>' ∉ s))
  | raw t s => inferInstanceAs (Decidable (t.IsWritten ∧ t.closesItself = false ∧
      t.name ∈ RawText.names ∧ contains s ['<', '/'] = false ∧ (t.name = sheetName → char '<' ∉ s)))

theorem WellFormed.tag {c : Chunk} (h : c.WellFormed) {t : OpenTag} (ht : c.tag? = some t) :
    t.IsWritten := by
  cases c with
  | opening u =>
      obtain rfl := Option.some.inj ht
      exact h.1
  | raw u s =>
      obtain rfl := Option.some.inj ht
      exact h.1
  | _ => cases ht

/-- A chunk with a start tag is that start tag and the text hidden behind it. -/
theorem source_of_tag? {c : Chunk} {t : OpenTag} (ht : c.tag? = some t) :
    c.source = t.source ++ c.hidden := by
  cases c with
  | opening u =>
      obtain rfl := Option.some.inj ht
      simp [source, hidden]
  | raw u s =>
      obtain rfl := Option.some.inj ht
      rfl
  | _ => cases ht

theorem tag?_retag (f : OpenTag → OpenTag) (c : Chunk) : (c.retag f).tag? = c.tag?.map f := by
  cases c <;> rfl

/-- Another start tag of the same name leaves the hidden text of a chunk as it is. -/
theorem hidden_retag {f : OpenTag → OpenTag} (hf : ∀ t, (f t).name = t.name) (c : Chunk) :
    (c.retag f).hidden = c.hidden := by
  cases c with
  | raw t s => simp [retag, hidden, hf]
  | _ => rfl

theorem retag_eq_self {f : OpenTag → OpenTag} {c : Chunk} (h : ∀ t, c.tag? = some t → f t = t) :
    c.retag f = c := by
  cases c with
  | opening t => exact congrArg opening (h t rfl)
  | raw t s => exact congrArg (raw · s) (h t rfl)
  | _ => rfl

theorem WellFormed.retag {f : OpenTag → OpenTag} (hname : ∀ t, (f t).name = t.name)
    (hclose : ∀ t, (f t).closesItself = t.closesItself) {c : Chunk} (h : c.WellFormed)
    (hf : ∀ t, c.tag? = some t → (f t).IsWritten) : (c.retag f).WellFormed := by
  cases c with
  | opening t => exact ⟨hf t rfl, hname t ▸ h.2⟩
  | raw t s =>
      obtain ⟨-, hopen, hraw, hs, hcss⟩ := h
      exact ⟨hf t rfl, (hclose t).trans hopen, hname t ▸ hraw, hs, hname t ▸ hcss⟩
  | _ => exact h

theorem selectedBy_of_tag? (sel : Selector) {c : Chunk} {t : OpenTag} (h : c.tag? = some t) :
    c.selectedBy sel = t.selectedBy sel := by
  rw [selectedBy, h]
  rfl

theorem exists_of_selectedBy {sel : Selector} {c : Chunk} (h : c.selectedBy sel = true) :
    ∃ t, c.tag? = some t ∧ t.selectedBy sel = true := by
  rw [selectedBy, Option.any_eq_true] at h
  exact h

end Chunk

/-! ## Flows -/

/-- Running text that opens no tag. A character reference may stand in it, but none by number:
when it is not finished, the reader stops there. -/
def IsProse (s : Text) : Prop := char '<' ∉ s ∧ contains s ['&', '#'] = false

instance : DecidablePred IsProse := fun s =>
  inferInstanceAs (Decidable (char '<' ∉ s ∧ contains s ['&', '#'] = false))

/-- A text, or a chunk with the text before it and the flow after it. -/
inductive Flow where
  | text (s : Text)
  | chunk (before : Text) (c : Chunk) (rest : Flow)
  deriving DecidableEq, Repr

namespace Flow

/-- A flow as markup. -/
def source : Flow → Text
  | text s => s
  | chunk before c rest => before ++ c.source ++ rest.source

/-- The chunks of a flow, in order. -/
def chunks : Flow → List Chunk
  | text _ => []
  | chunk _ c rest => c :: rest.chunks

/-- The start tags of a flow, in order. -/
def tags (f : Flow) : List OpenTag := f.chunks.filterMap Chunk.tag?

/-- Whether the texts and the chunks of a flow are well formed. -/
def WellFormed : Flow → Prop
  | text s => IsProse s
  | chunk before c rest => IsProse before ∧ c.WellFormed ∧ rest.WellFormed

/-- Whether a flow is well formed, as a computation. -/
def decideWellFormed : (f : Flow) → Decidable f.WellFormed
  | text s => inferInstanceAs (Decidable (IsProse s))
  | chunk before c rest =>
      have := decideWellFormed rest
      inferInstanceAs (Decidable (IsProse before ∧ c.WellFormed ∧ rest.WellFormed))

instance : DecidablePred WellFormed := decideWellFormed

/-- A flow with an end tag behind it. -/
def closedBy (name : Text) : Flow → Flow
  | text s => chunk s (.closing name) (text [])
  | chunk before c rest => chunk before c (rest.closedBy name)

/-- A flow as the content of an element. -/
def inside (t : OpenTag) (f : Flow) : Flow := chunk [] (.opening t) (f.closedBy t.name)

/-- A flow with other start tags. -/
def retag (g : OpenTag → OpenTag) : Flow → Flow
  | text s => text s
  | chunk before c rest => chunk before (c.retag g) (rest.retag g)

/-- A flow with another start tag for the first element that a selector takes. -/
def retagFirst (sel : Selector) (g : OpenTag → OpenTag) : Flow → Flow
  | text s => text s
  | chunk before c rest =>
      if c.selectedBy sel then chunk before (c.retag g) rest else chunk before c (rest.retagFirst sel g)

/-- Whether no text that is hidden in a flow holds a copy of the start tag of an element that a
selector takes. -/
def HidesNo (sel : Selector) (f : Flow) : Prop :=
  ∀ c ∈ f.chunks, ∀ t ∈ f.tags, t.selectedBy sel = true → contains c.hidden t.source = false

theorem mem_tags {f : Flow} {t : OpenTag} : t ∈ f.tags ↔ ∃ c ∈ f.chunks, c.tag? = some t :=
  List.mem_filterMap

theorem mem_tags_chunk {before : Text} {c : Chunk} {rest : Flow} {t : OpenTag} :
    t ∈ (chunk before c rest).tags ↔ c.tag? = some t ∨ t ∈ rest.tags := by
  simp [mem_tags, chunks]

theorem WellFormed.chunk {f : Flow} (h : f.WellFormed) : ∀ c ∈ f.chunks, c.WellFormed := by
  induction f with
  | text s => simp [chunks]
  | chunk before c rest ih =>
      obtain ⟨-, hc, hrest⟩ := h
      rintro x hx
      rcases List.mem_cons.1 hx with rfl | hx
      exacts [hc, ih hrest x hx]

theorem WellFormed.tag {f : Flow} (h : f.WellFormed) : ∀ t ∈ f.tags, t.IsWritten := by
  intro t ht
  obtain ⟨c, hc, htag⟩ := mem_tags.1 ht
  exact (h.chunk c hc).tag htag

/-! ## Inside an element -/

theorem source_closedBy (name : Text) (f : Flow) :
    (f.closedBy name).source = f.source ++ endTagText name := by
  induction f with
  | text s => simp [closedBy, source, Chunk.source]
  | chunk before c rest ih => simp [closedBy, source, ih]

theorem chunks_closedBy (name : Text) (f : Flow) :
    (f.closedBy name).chunks = f.chunks ++ [.closing name] := by
  induction f with
  | text s => rfl
  | chunk before c rest ih => rw [closedBy, chunks, chunks, ih, List.cons_append]

theorem WellFormed.closedBy {name : Text} (hname : isElementName name = true) {f : Flow}
    (h : f.WellFormed) : (f.closedBy name).WellFormed := by
  induction f with
  | text s => exact ⟨h, hname, by simp, by decide⟩
  | chunk before c rest ih => exact ⟨h.1, h.2.1, ih h.2.2⟩

theorem source_inside (t : OpenTag) (f : Flow) :
    (f.inside t).source = t.source ++ (f.source ++ endTagText t.name) := by
  simp [inside, source, source_closedBy, Chunk.source]

theorem chunks_inside (t : OpenTag) (f : Flow) :
    (f.inside t).chunks = .opening t :: (f.chunks ++ [.closing t.name]) := by
  rw [inside, chunks, chunks_closedBy]

theorem tags_inside (t : OpenTag) (f : Flow) : (f.inside t).tags = t :: f.tags := by
  rw [tags, chunks_inside]
  simp [tags, Chunk.tag?]

theorem WellFormed.inside {t : OpenTag} (ht : t.IsWritten) (hn : t.name ∉ RawText.names) {f : Flow}
    (h : f.WellFormed) : (f.inside t).WellFormed :=
  ⟨by decide, ⟨ht, hn⟩, h.closedBy ht.name⟩

/-! ## Other start tags -/

theorem chunks_retag (g : OpenTag → OpenTag) (f : Flow) :
    (f.retag g).chunks = f.chunks.map (·.retag g) := by
  induction f with
  | text s => rfl
  | chunk before c rest ih => rw [retag, chunks, chunks, ih, List.map_cons]

/-- A flow whose start tags are their own replacements stays as it is. -/
theorem retag_eq_self {g : OpenTag → OpenTag} {f : Flow} (h : ∀ t ∈ f.tags, g t = t) :
    f.retag g = f := by
  induction f with
  | text s => rfl
  | chunk before c rest ih =>
      rw [retag, Chunk.retag_eq_self fun t ht => h t (mem_tags_chunk.2 (Or.inl ht)),
        ih fun t ht => h t (mem_tags_chunk.2 (Or.inr ht))]

theorem retagFirst_eq_self {sel : Selector} {g : OpenTag → OpenTag} {f : Flow}
    (h : ∀ t ∈ f.tags, g t = t) : f.retagFirst sel g = f := by
  induction f with
  | text s => rfl
  | chunk before c rest ih =>
      rw [retagFirst, Chunk.retag_eq_self fun t ht => h t (mem_tags_chunk.2 (Or.inl ht)),
        ih fun t ht => h t (mem_tags_chunk.2 (Or.inr ht)), ite_self]

theorem tags_retag (g : OpenTag → OpenTag) (f : Flow) : (f.retag g).tags = f.tags.map g := by
  rw [tags, chunks_retag, tags, List.filterMap_map, List.map_filterMap]
  simp [Chunk.tag?_retag]

section

variable {g : OpenTag → OpenTag} (hname : ∀ t, (g t).name = t.name)
  (hclose : ∀ t, (g t).closesItself = t.closesItself)

include hname hclose

theorem WellFormed.retag {f : Flow} (h : f.WellFormed) (hg : ∀ t ∈ f.tags, (g t).IsWritten) :
    (f.retag g).WellFormed := by
  induction f with
  | text s => exact h
  | chunk before c rest ih =>
      have hc := h.2.1.retag hname hclose fun t ht => hg t (mem_tags_chunk.2 (Or.inl ht))
      have hrest := ih h.2.2 fun t ht => hg t (mem_tags_chunk.2 (Or.inr ht))
      exact ⟨h.1, hc, hrest⟩

theorem WellFormed.retagFirst {f : Flow} (h : f.WellFormed) {sel : Selector}
    (hg : ∀ t ∈ f.tags, (g t).IsWritten) : (f.retagFirst sel g).WellFormed := by
  induction f with
  | text s => exact h
  | chunk before c rest ih =>
      rw [Flow.retagFirst]
      split
      · have hc := h.2.1.retag hname hclose fun t ht => hg t (mem_tags_chunk.2 (Or.inl ht))
        exact ⟨h.1, hc, h.2.2⟩
      · have hrest := ih h.2.2 fun t ht => hg t (mem_tags_chunk.2 (Or.inr ht))
        exact ⟨h.1, h.2.1, hrest⟩

end

/-- Every chunk of a flow is kept, or is the first that is selected, with another start tag. -/
theorem exists_of_mem_retagFirst {sel : Selector} {g : OpenTag → OpenTag} {f : Flow} {c : Chunk}
    (hc : c ∈ (f.retagFirst sel g).chunks) :
    c ∈ f.chunks ∨ ∃ d ∈ f.chunks, d.selectedBy sel = true ∧ c = d.retag g := by
  induction f with
  | text s => exact Or.inl hc
  | chunk before d rest ih =>
      rw [retagFirst] at hc
      split at hc
      · rename_i hsel
        rcases List.mem_cons.1 hc with rfl | hc
        exacts [Or.inr ⟨d, List.mem_cons_self, hsel, rfl⟩, Or.inl (List.mem_cons_of_mem d hc)]
      · rcases List.mem_cons.1 hc with rfl | hc
        · exact Or.inl List.mem_cons_self
        · rcases ih hc with hc | ⟨e, he, hsel, rfl⟩
          exacts [Or.inl (List.mem_cons_of_mem d hc), Or.inr ⟨e, List.mem_cons_of_mem d he, hsel, rfl⟩]

end Flow

end Stencil.Html
