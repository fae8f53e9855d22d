import Stencil.Proofs.Template.Basic

set_option autoImplicit false

/-! # Well-formed templates

`IsTemplate` says where imports, slots and templates may stand. Filling the slots of a
template with final documents gives a template without slots, and what an import supplies is
final: nothing in it is left to expand.
-/

namespace Stencil.Html

open Text Vocabulary

/-! ## Kinds of documents -/

/-- A start tag that means nothing in a template. -/
structure OpenTag.IsOrdinary (t : OpenTag) : Prop where
  not_raw : t.name ∉ RawText.names
  not_import : t.name ≠ importTag
  not_slot : t.name ≠ slotTag
  not_template : t.name ≠ templateTag
  unwrapped : t.table.has wrapperAttr = false

/-- Whether the name of a template is one that a slot other than the default one may have. -/
def OpenTag.namesSlot (t : OpenTag) : Bool :=
  (t.attr? "name".text).any fun n => !n.isEmpty && n != defaultSlot

namespace Document

/-- A document in which nothing is left to expand. -/
structure IsFinal (d : Document) : Prop where
  wellFormed : d.WellFormed
  ordinary : ∀ x ∈ d.elements, x.1.IsOrdinary

/-- Whether templates stand only at the top of the content of imports, each with the name of a
slot. `inside` says whether the top of the document is such a place. -/
def templatesPlaced (inside : Bool) : Document → Bool
  | text _ => true
  | element _ tag content rest =>
      (if tag.name = templateTag then inside && tag.namesSlot && content.templatesPlaced false
       else content.templatesPlaced (tag.name = importTag)) && rest.templatesPlaced inside

/-- A template: no style sheets and wrappers, no Markdown, imports and slots that do not stand
inside their like, and templates in their place. -/
structure IsTemplate (d : Document) : Prop where
  wellFormed : d.WellFormed
  rawless : d.Rawless
  unwrapped : ∀ x ∈ d.elements, x.1.table.has wrapperAttr = false
  html : ∀ x ∈ d.elements, x.1.name = importTag →
    x.1.attr? "as".text ≠ some "markdown".text
  imports : ∀ x ∈ d.elements, x.1.name = importTag → x.2.Lacks importTag
  slots : ∀ x ∈ d.elements, x.1.name = slotTag → x.2.Lacks slotTag
  placed : d.templatesPlaced false = true

instance : DecidablePred IsTemplate := fun d =>
  decidable_of_iff
    (d.WellFormed ∧ d.Rawless ∧
      (∀ x ∈ d.elements, x.1.table.has wrapperAttr = false) ∧
      (∀ x ∈ d.elements, x.1.name = importTag →
        x.1.attr? "as".text ≠ some "markdown".text) ∧
      (∀ x ∈ d.elements, x.1.name = importTag → x.2.Lacks importTag) ∧
      (∀ x ∈ d.elements, x.1.name = slotTag → x.2.Lacks slotTag) ∧ d.templatesPlaced false = true)
    ⟨fun ⟨h₁, h₂, h₃, h₄, h₅, h₆, h₇⟩ => ⟨h₁, h₂, h₃, h₄, h₅, h₆, h₇⟩,
      fun ⟨h₁, h₂, h₃, h₄, h₅, h₆, h₇⟩ => ⟨h₁, h₂, h₃, h₄, h₅, h₆, h₇⟩⟩

/-- A template whose slots are filled. -/
structure IsFilled (d : Document) : Prop extends IsTemplate d where
  slotless : d.Lacks slotTag

/-- The content of an import in a template whose slots are filled. -/
structure IsImportContent (d : Document) : Prop where
  wellFormed : d.WellFormed
  rawless : d.Rawless
  unwrapped : ∀ x ∈ d.elements, x.1.table.has wrapperAttr = false
  importless : d.Lacks importTag
  slotless : d.Lacks slotTag
  placed : d.templatesPlaced true = true

/-! ## Where templates stand -/

theorem templatesPlaced_of_lacks {d : Document} (h : d.Lacks templateTag) (inside : Bool) :
    d.templatesPlaced inside = true := by
  induction d generalizing inside with
  | text s => rfl
  | element before tag content rest ihc ihr =>
      rw [templatesPlaced, if_neg (h (tag, content) (by simp)),
        ihc (fun x hx => h x (by simp [hx])), ihr (fun x hx => h x (by simp [hx])), Bool.and_self]

theorem templatesPlaced_mono {d : Document} (h : d.templatesPlaced false = true) (inside : Bool) :
    d.templatesPlaced inside = true := by
  induction d with
  | text s => rfl
  | element before tag content rest _ ihr =>
      rw [templatesPlaced, Bool.and_eq_true] at h ⊢
      refine ⟨?_, ihr h.2⟩
      split
      · rename_i hn
        rw [if_pos hn] at h
        simp at h
      · rename_i hn
        rw [if_neg hn] at h
        exact h.1

@[simp] theorem templatesPlaced_prepend (inside : Bool) (s : Text) (d : Document) :
    (d.prepend s).templatesPlaced inside = d.templatesPlaced inside := by
  cases d <;> rfl

@[simp] theorem templatesPlaced_append (inside : Bool) (d e : Document) :
    (d ++ e).templatesPlaced inside = (d.templatesPlaced inside && e.templatesPlaced inside) := by
  induction d with
  | text s => simp [templatesPlaced]
  | element before tag content rest _ ih => simp [templatesPlaced, ih, Bool.and_assoc]

/-- Where no template may stand at the top and there is no other import, there is none. -/
theorem lacks_templates {d : Document} (hi : d.Lacks importTag)
    (h : d.templatesPlaced false = true) : d.Lacks templateTag := by
  induction d with
  | text s => simp [Lacks]
  | element before tag content rest ihc ihr =>
      rw [templatesPlaced, Bool.and_eq_true] at h
      have hn : tag.name ≠ templateTag := by
        intro hn
        rw [if_pos hn] at h
        simp at h
      rw [if_neg hn, decide_eq_false (hi (tag, content) (by simp))] at h
      intro x hx
      simp only [elements_element, List.mem_cons, List.mem_append] at hx
      rcases hx with rfl | hx | hx
      exacts [hn, ihc (fun y hy => hi y (by simp [hy])) h.1 x hx,
        ihr (fun y hy => hi y (by simp [hy])) h.2 x hx]

/-- Whether templates stand only at the top of a document: no element holds one. -/
def TemplatesOnTop (d : Document) : Prop := ∀ x ∈ d.elements, x.2.Lacks templateTag

instance : DecidablePred TemplatesOnTop := fun d =>
  inferInstanceAs (Decidable (∀ x ∈ d.elements, _))

theorem TemplatesOnTop.rest {before : Text} {tag : OpenTag} {content rest : Document}
    (h : (element before tag content rest).TemplatesOnTop) : rest.TemplatesOnTop :=
  fun x hx => h x (by simp [hx])

theorem TemplatesOnTop.trim {d : Document} (h : d.TemplatesOnTop) : d.trim.TemplatesOnTop :=
  fun x hx => h x (by simpa using hx)

theorem IsImportContent.templatesOnTop {d : Document} (h : d.IsImportContent) : d.TemplatesOnTop := by
  have key : ∀ {d : Document} {inside : Bool}, d.Lacks importTag → d.templatesPlaced inside = true →
      d.TemplatesOnTop := by
    intro d inside hi hd
    induction d with
    | text s => simp [TemplatesOnTop]
    | element before tag content rest _ ihr =>
        rw [templatesPlaced, Bool.and_eq_true] at hd
        have hcontent : content.Lacks templateTag := by
          have hplaced := hd.1
          refine lacks_templates (fun x hx => hi x (by simp [hx])) ?_
          by_cases hn : tag.name = templateTag
          · rw [if_pos hn, Bool.and_eq_true] at hplaced
            exact hplaced.2
          · rwa [if_neg hn, decide_eq_false (hi (tag, content) (by simp))] at hplaced
        intro x hx
        simp only [elements_element, List.mem_cons, List.mem_append] at hx
        rcases hx with rfl | hx | hx
        · exact hcontent
        · exact fun y hy => hcontent y (mem_elements_of_mem_content hx hy)
        · exact ihr (fun y hy => hi y (by simp [hy])) hd.2 x hx
  exact key h.importless h.placed

theorem IsFilled.importContent {d : Document} (h : d.IsFilled) {tag : OpenTag} {content : Document}
    (hmem : (tag, content) ∈ d.elements) (hn : tag.name = importTag) : content.IsImportContent where
  wellFormed := h.wellFormed.content_of_mem h.rawless _ hmem
  rawless := fun x hx => h.rawless x (mem_elements_of_mem_content hmem hx)
  unwrapped := fun x hx => h.unwrapped x (mem_elements_of_mem_content hmem hx)
  importless := h.imports _ hmem hn
  slotless := fun x hx => h.slotless x (mem_elements_of_mem_content hmem hx)
  placed := by
    have key : ∀ {d : Document} {inside : Bool}, d.templatesPlaced inside = true →
        (tag, content) ∈ d.elements → content.templatesPlaced true = true := by
      intro d
      induction d with
      | text s => simp
      | element before t c rest ihc ihr =>
          intro inside hd hmem
          rw [templatesPlaced, Bool.and_eq_true] at hd
          simp only [elements_element, List.mem_cons, List.mem_append, Prod.mk.injEq] at hmem
          rcases hmem with ⟨rfl, rfl⟩ | hmem | hmem
          · rw [hn, if_neg (by decide), decide_eq_true rfl] at hd
            exact hd.1
          · split at hd
            · simp only [Bool.and_eq_true] at hd
              exact ihc hd.1.2 hmem
            · exact ihc hd.1 hmem
          · exact ihr hd.2 hmem
    exact key h.placed hmem

/-! ## Filled documents -/

section

variable {supply : Text → Option Document}

/-- The elements of a filled document: those of the document, except slots, and those of what
was put in. -/
theorem mem_elements_fill {d : Document} {x : OpenTag × Document}
    (hx : x ∈ (d.fill supply).elements) :
    (x.1.name ≠ slotTag ∧ ∃ c, (x.1, c) ∈ d.elements ∧ x.2 = c.fill supply) ∨
      ∃ n e, supply n = some e ∧ x ∈ e.elements := by
  induction d with
  | text s => simp [fill] at hx
  | element before tag content rest ihc ihr =>
      have hcontent : x ∈ (content.fill supply).elements →
          (x.1.name ≠ slotTag ∧ ∃ c, (x.1, c) ∈ (element before tag content rest).elements ∧
            x.2 = c.fill supply) ∨ ∃ n e, supply n = some e ∧ x ∈ e.elements := by
        intro h
        rcases ihc h with ⟨hn, c, hc, e⟩ | hs
        exacts [Or.inl ⟨hn, c, by simp [hc], e⟩, Or.inr hs]
      have hrest : x ∈ (rest.fill supply).elements →
          (x.1.name ≠ slotTag ∧ ∃ c, (x.1, c) ∈ (element before tag content rest).elements ∧
            x.2 = c.fill supply) ∨ ∃ n e, supply n = some e ∧ x ∈ e.elements := by
        intro h
        rcases ihr h with ⟨hn, c, hc, e⟩ | hs
        exacts [Or.inl ⟨hn, c, by simp [hc], e⟩, Or.inr hs]
      rw [fill] at hx
      split at hx
      · simp only [text_append, elements_append, elements_prepend, List.mem_append] at hx
        rcases hx with hx | hx
        · cases hs : supply tag.slotName with
          | none =>
              rw [hs] at hx
              exact hcontent hx
          | some e =>
              rw [hs] at hx
              exact Or.inr ⟨_, e, hs, hx⟩
        · exact hrest hx
      · rename_i hn
        simp only [elements_element, List.mem_cons, List.mem_append] at hx
        rcases hx with rfl | hx | hx
        exacts [Or.inl ⟨hn, content, by simp, rfl⟩, hcontent hx, hrest hx]

theorem WellFormed.fill (hsupply : ∀ n e, supply n = some e → e.WellFormed) {d : Document}
    (h : d.WellFormed) (hd : d.Rawless) : (d.fill supply).WellFormed := by
  induction h with
  | text hs => exact .text hs
  | @element before tag content rest hb ht hn hc hr ihc ihr =>
      have hcontent := ihc fun x hx => hd x (by simp [hx])
      have hrest := ihr fun x hx => hd x (by simp [hx])
      rw [Document.fill]
      split
      · refine WellFormed.append (WellFormed.prepend hb ?_) hrest
        cases hs : supply tag.slotName with
        | none => exact hcontent
        | some e => exact hsupply _ e hs
      · exact .element hb ht hn hcontent hrest
  | @raw before tag css rest _ _ hn _ _ _ => exact absurd hn (hd (tag, .text css) (by simp))

variable (hsupply : ∀ n e, supply n = some e → e.IsFinal)

include hsupply

theorem lacks_fill {d : Document} {name : Text} (hd : name ≠ slotTag → d.Lacks name)
    (hname : ∀ t : OpenTag, t.IsOrdinary → t.name ≠ name) : (d.fill supply).Lacks name := by
  intro x hx
  rcases mem_elements_fill hx with ⟨hn, c, hc, -⟩ | ⟨n, e, hs, he⟩
  · intro e
    exact hd (e ▸ hn) _ hc e
  · exact hname _ ((hsupply n e hs).ordinary x he)

theorem templatesPlaced_fill {d : Document} {inside : Bool} (h : d.templatesPlaced inside = true) :
    (d.fill supply).templatesPlaced inside = true := by
  induction d generalizing inside with
  | text s => rfl
  | element before tag content rest ihc ihr =>
      rw [templatesPlaced, Bool.and_eq_true] at h
      rw [Document.fill]
      split
      · rename_i hn
        rw [hn, if_neg (by decide), decide_eq_false (by decide)] at h
        rw [text_append, templatesPlaced_append, templatesPlaced_prepend, ihr h.2, Bool.and_true]
        cases hs : supply tag.slotName with
        | none => exact templatesPlaced_mono (ihc h.1) inside
        | some e =>
            exact templatesPlaced_of_lacks
              (fun x hx => ((hsupply _ e hs).ordinary x hx).not_template) inside
      · rw [templatesPlaced, ihr h.2, Bool.and_true]
        split
        · rename_i hn
          rw [if_pos hn] at h
          simp only [Bool.and_eq_true] at h ⊢
          exact ⟨h.1.1, ihc h.1.2⟩
        · rename_i hn
          rw [if_neg hn] at h
          exact ihc h.1

/-- Filling a template with final documents leaves a template without slots. -/
theorem IsTemplate.fill {d : Document} (h : d.IsTemplate) : (d.fill supply).IsFilled where
  wellFormed := WellFormed.fill (fun n e he => (hsupply n e he).wellFormed) h.wellFormed h.rawless
  rawless := rawless_iff.2 fun name hname =>
    lacks_fill hsupply (fun _ => rawless_iff.1 h.rawless name hname) fun _ ht e =>
      ht.not_raw (e ▸ hname)
  slotless := lacks_fill hsupply (fun hn => absurd rfl hn) fun _ ht => ht.not_slot
  placed := templatesPlaced_fill hsupply h.placed
  unwrapped := by
    intro x hx
    rcases mem_elements_fill hx with ⟨-, c, hc, -⟩ | ⟨n, e, hs, he⟩
    exacts [h.unwrapped (x.1, c) hc, ((hsupply n e hs).ordinary x he).unwrapped]
  html := by
    intro x hx hn
    rcases mem_elements_fill hx with ⟨-, c, hc, -⟩ | ⟨n, e, hs, he⟩
    exacts [h.html (x.1, c) hc hn, absurd hn ((hsupply n e hs).ordinary x he).not_import]
  imports := by
    intro x hx hn
    rcases mem_elements_fill hx with ⟨-, c, hc, e⟩ | ⟨n, e, hs, he⟩
    · rw [e]
      exact lacks_fill hsupply (fun _ => h.imports _ hc hn) fun _ ht => ht.not_import
    · exact absurd hn ((hsupply n e hs).ordinary x he).not_import
  slots := by
    intro x hx hn
    rcases mem_elements_fill hx with ⟨hn', -⟩ | ⟨n, e, hs, he⟩
    exacts [absurd hn hn', absurd hn ((hsupply n e hs).ordinary x he).not_slot]

end

/-! ## What an import supplies is final -/

theorem mem_templates {d : Document} {x : Text × Document} (hx : x ∈ d.templates) :
    ∃ y ∈ d.elements, y.1.name = templateTag ∧ y.2 = x.2 := by
  induction d with
  | text s => simp [templates] at hx
  | element before tag content rest _ ihr =>
      rw [templates] at hx
      split at hx
      · rename_i hn
        rcases List.mem_cons.1 hx with rfl | hx
        · exact ⟨(tag, content), by simp, hn, rfl⟩
        · obtain ⟨y, hy, h⟩ := ihr hx
          exact ⟨y, by simp [hy], h⟩
      · obtain ⟨y, hy, h⟩ := ihr hx
        exact ⟨y, by simp [hy], h⟩

theorem mem_elements_withoutTemplates {d : Document} {x : OpenTag × Document}
    (hx : x ∈ d.withoutTemplates.elements) : x ∈ d.elements := by
  induction d with
  | text s => simp [withoutTemplates] at hx
  | element before tag content rest _ ihr =>
      rw [withoutTemplates] at hx
      split at hx
      · simp only [text_append, elements_prepend] at hx
        simp [ihr hx]
      · simp only [elements_element, List.mem_cons, List.mem_append] at hx ⊢
        rcases hx with rfl | hx | hx
        exacts [Or.inl rfl, Or.inr (Or.inl hx), Or.inr (Or.inr (ihr hx))]

theorem lacks_withoutTemplates {d : Document} (h : d.TemplatesOnTop) :
    d.withoutTemplates.Lacks templateTag := by
  induction d with
  | text s => simp [withoutTemplates, Lacks]
  | element before tag content rest _ ihr =>
      have hrest := ihr h.rest
      rw [withoutTemplates]
      split
      · simpa [Lacks] using hrest
      · rename_i hn
        intro x hx
        simp only [elements_element, List.mem_cons, List.mem_append] at hx
        rcases hx with rfl | hx | hx
        exacts [hn, h (tag, content) (by simp) x hx, hrest x hx]

theorem WellFormed.withoutTemplates {d : Document} (h : d.WellFormed) :
    d.withoutTemplates.WellFormed := by
  induction h with
  | text hs => exact .text hs
  | @element before tag content rest hb ht hn hc _ _ ihr =>
      rw [Document.withoutTemplates]
      split
      · exact ihr.prepend hb
      · exact .element hb ht hn hc ihr
  | @raw before tag css rest hb ht hn hcss _ ihr =>
      rw [Document.withoutTemplates]
      split
      · exact ihr.prepend hb
      · exact .raw hb ht hn hcss ihr

namespace IsImportContent

variable {c : Document} (h : c.IsImportContent)

include h

theorem isFinal_trim {d : Document} (hwf : d.WellFormed) (hmem : ∀ x ∈ d.elements, x ∈ c.elements)
    (ht : d.Lacks templateTag) : d.trim.IsFinal := by
  refine ⟨hwf.trim, fun x hx => ?_⟩
  rw [elements_trim] at hx
  have hc := hmem x hx
  exact ⟨h.rawless x hc, h.importless x hc, h.slotless x hc, ht x hx, h.unwrapped x hc⟩

/-- What the content of an import supplies is final. -/
theorem isFinal_supply {n : Text} {e : Document} (he : c.supply n = some e) : e.IsFinal := by
  rw [supply] at he
  obtain ⟨d, hd, rfl⟩ := Option.map_eq_some_iff.1 (Option.eq_some_of_filter_eq_some he)
  rw [given] at hd
  split at hd
  · rw [← Option.some.inj hd]
    exact h.isFinal_trim h.wellFormed.withoutTemplates
      (fun x hx => mem_elements_withoutTemplates hx) (lacks_withoutTemplates h.templatesOnTop)
  · have hd' : (n, d) ∈ c.templates := by
      obtain ⟨l, r, hl, -⟩ := List.lookup_eq_some_iff.1 hd
      exact List.mem_reverse.1 (by simp [hl])
    obtain ⟨y, hy, -, e⟩ := mem_templates hd'
    obtain rfl : y.2 = d := e
    exact h.isFinal_trim (h.wellFormed.content_of_mem h.rawless y hy)
      (fun x hx => mem_elements_of_mem_content hy hx) (h.templatesOnTop y hy)

end IsImportContent

end Document
end Stencil.Html
