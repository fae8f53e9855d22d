import Stencil.Proofs.Document.Quiet
import Stencil.Proofs.Document.Retag
import Stencil.Proofs.Document.Unique

set_option autoImplicit false

/-! # Where the text of an element stands

In the source of a document without style sheets, the text of an element stands only where such
an element is. So when one such text is replaced by the source of a document, the whole stays
the source of a document, wherever the text stood.
-/

namespace Stencil.Html

open Text

/-- The text of an element. -/
def elementSource (x : OpenTag × Document) : Text := x.1.source ++ x.2.source ++ endTagText x.1.name

theorem elementSource_append (x : OpenTag × Document) (b : Text) :
    elementSource x ++ b = char '<' ::
        (x.1.inside ++ char '>' :: (x.2.source ++ (endTagText x.1.name ++ b))) := by
  simp [elementSource, OpenTag.source]

/-! ## Where a tag may begin -/

/-- A text that begins with `<` begins behind every text without `<`. -/
theorem exists_append_of_not_mem {s r a y : Text} (hs : char '<' ∉ s)
    (e : s ++ r = a ++ char '<' :: y) :
    ∃ a', a = s ++ a' ∧ r = a' ++ char '<' :: y := by
  rcases List.append_eq_append_iff.1 e with ⟨c, hc, hr⟩ | ⟨c, rfl, hc⟩
  · exact ⟨c, hc, hr⟩
  · cases c with
    | nil => exact ⟨[], by simp, by simpa using hc.symm⟩
    | cons d c =>
        obtain ⟨rfl, -⟩ := List.cons.inj hc
        exact absurd (by simp) hs

/-- It begins behind a tag, if not with it. -/
theorem exists_append_of_tag {x r a y : Text} (hx : char '<' ∉ x)
    (e : char '<' :: x ++ r = a ++ char '<' :: y) :
    a = [] ∨ ∃ a', a = char '<' :: x ++ a' ∧ r = a' ++ char '<' :: y := by
  cases a with
  | nil => exact Or.inl rfl
  | cons c a =>
      obtain ⟨rfl, htail⟩ := List.cons.inj e
      obtain ⟨a', rfl, hr⟩ := exists_append_of_not_mem hx htail
      exact Or.inr ⟨a', rfl, hr⟩

theorem OpenTag.WellFormed.exists_append {t : OpenTag} (ht : t.WellFormed) {r a y : Text}
    (e : t.source ++ r = a ++ char '<' :: y) :
    a = [] ∨ ∃ a', a = t.source ++ a' ∧ r = a' ++ char '<' :: y := by
  have hsource : t.source = char '<' :: (t.inside ++ [char '>']) := by simp [OpenTag.source]
  rw [hsource] at e ⊢
  exact exists_append_of_tag (by simpa using ht.lt_not_mem) e

theorem exists_append_of_endTagText {t : OpenTag} (ht : t.WellFormed) {r a y : Text}
    (e : endTagText t.name ++ r = a ++ char '<' :: y) :
    a = [] ∨ ∃ a', a = endTagText t.name ++ a' ∧ r = a' ++ char '<' :: y := by
  have hlt : char '<' ∉ char '/' :: (t.name ++ [char '>']) := by
    simpa using not_mem_of_isElementName ht.name (a := '<') (by decide)
  have hsource : endTagText t.name = char '<' :: char '/' :: (t.name ++ [char '>']) := by
    simp [endTagText]
  rw [hsource] at e ⊢
  exact exists_append_of_tag hlt e

/-! ## Where an element may stand -/

namespace Document

/-- What it means that an element stands at a place in a document: any document may be put in
its stead. -/
def HasAt (d : Document) (a : Text) (x : OpenTag × Document) (b : Text) : Prop :=
  x ∈ d.elements ∧ ∀ v : Document, v.WellFormed → ∃ d' : Document, d'.WellFormed ∧
    d'.source = a ++ v.source ++ b ∧
    ∀ y ∈ d'.elements, (∃ z ∈ d.elements, z.1 = y.1) ∨ ∃ z ∈ v.elements, z.1 = y.1

variable {before : Text} {tag : OpenTag} {content rest : Document}

theorem hasAt_self (h : (element before tag content rest).WellFormed) :
    (element before tag content rest).HasAt before (tag, content) rest.source := by
  refine ⟨by simp, fun v hv => ⟨.text before ++ v ++ rest, ?_, by simp, ?_⟩⟩
  · exact (hv.prepend h.before).append h.rest
  · intro y hy
    simp only [text_append, elements_append, elements_prepend, List.mem_append] at hy
    rcases hy with hy | hy
    exacts [Or.inr ⟨y, hy, rfl⟩, Or.inl ⟨y, by simp [hy], rfl⟩]

theorem hasAt_content (h : (element before tag content rest).WellFormed) (hn : tag.name ∉ RawText.names)
    {a b : Text} {x : OpenTag × Document} (hx : content.HasAt a x b) :
    (element before tag content rest).HasAt (before ++ tag.source ++ a) x
      (b ++ endTagText tag.name ++ rest.source) := by
  refine ⟨by simp [hx.1], fun v hv => ?_⟩
  obtain ⟨c', hc', hsource, htags⟩ := hx.2 v hv
  refine ⟨.element before tag c' rest, .element h.before h.tag hn hc' h.rest, by simp [source, hsource], ?_⟩
  intro y hy
  simp only [elements_element, List.mem_cons, List.mem_append] at hy
  rcases hy with rfl | hy | hy
  · exact Or.inl ⟨(tag, content), by simp, rfl⟩
  · rcases htags y hy with ⟨z, hz, e⟩ | h
    exacts [Or.inl ⟨z, by simp [hz], e⟩, Or.inr h]
  · exact Or.inl ⟨y, by simp [hy], rfl⟩

theorem hasAt_rest (h : (element before tag content rest).WellFormed) (hn : tag.name ∉ RawText.names)
    {a b : Text} {x : OpenTag × Document} (hx : rest.HasAt a x b) :
    (element before tag content rest).HasAt
      (before ++ tag.source ++ content.source ++ endTagText tag.name ++ a) x b := by
  refine ⟨by simp [hx.1], fun v hv => ?_⟩
  obtain ⟨r', hr', hsource, htags⟩ := hx.2 v hv
  refine ⟨.element before tag content r', .element h.before h.tag hn (h.content_of_ne hn) hr',
    by simp [source, hsource], ?_⟩
  intro y hy
  simp only [elements_element, List.mem_cons, List.mem_append] at hy
  rcases hy with rfl | hy | hy
  · exact Or.inl ⟨(tag, content), by simp, rfl⟩
  · exact Or.inl ⟨y, by simp [hy], rfl⟩
  · rcases htags y hy with ⟨z, hz, e⟩ | h
    exacts [Or.inl ⟨z, by simp [hz], e⟩, Or.inr h]

/-- The text of an element stands behind the source of a document, or where such an element
is in it. -/
theorem WellFormed.occurs {d : Document} (h : d.WellFormed) (hs : d.Rawless)
    {x : OpenTag × Document} (ht : x.1.WellFormed) (hx : x.2.WellFormed) {a b r : Text}
    (e : d.source ++ r = a ++ (elementSource x ++ b)) :
    (∃ a', a = d.source ++ a' ∧ r = a' ++ (elementSource x ++ b)) ∨
      ∃ b', b = b' ++ r ∧ d.HasAt a x b' := by
  induction d generalizing a b r with
  | text s =>
      cases h with
      | text hrun =>
          rw [elementSource_append] at e ⊢
          exact Or.inl (exists_append_of_not_mem (not_mem_of_isRunning hrun) e)
  | element before tag content rest ihc ihr =>
      have hn : tag.name ∉ RawText.names := hs (tag, content) (by simp)
      have hc := h.content_of_ne hn
      simp only [source, List.append_assoc, elementSource_append x b] at e ⊢
      obtain ⟨a₁, rfl, e₁⟩ := exists_append_of_not_mem (not_mem_of_isRunning h.before) e
      rcases h.tag.exists_append e₁ with rfl | ⟨a₂, rfl, e₂⟩
      · -- it begins with the start tag, so it is this element
        rw [List.nil_append, ← source_eq_cons] at e₁
        obtain ⟨rfl, e₂⟩ := openTag_source_inj h.tag ht e₁
        obtain ⟨rfl, e₃⟩ := hc.source_inj hx (endsContent_endTagText _ _)
          (endsContent_endTagText _ _) e₂
        refine Or.inr ⟨rest.source, (List.append_cancel_left e₃).symm, ?_⟩
        rw [List.append_nil]
        exact hasAt_self h
      · rw [← elementSource_append] at e₂
        rcases ihc hc (fun y hy => hs y (by simp [hy])) e₂ with ⟨a₃, rfl, e₃⟩ | ⟨b', rfl, hat⟩
        · rw [elementSource_append] at e₃
          rcases exists_append_of_endTagText h.tag e₃ with rfl | ⟨a₄, rfl, e₄⟩
          · -- a start tag is no end tag
            rw [List.nil_append, ← source_eq_cons] at e₃
            exact absurd e₃ ((endsContent_endTagText _ _).ne_source ht)
          · rw [← elementSource_append] at e₄
            rcases ihr h.rest (fun y hy => hs y (by simp [hy])) e₄ with ⟨a₅, rfl, e₅⟩ | ⟨b', rfl, hat⟩
            · rw [← elementSource_append]
              exact Or.inl ⟨a₅, by simp, e₅⟩
            · refine Or.inr ⟨b', rfl, ?_⟩
              have := hasAt_rest h hn hat
              simpa using this
        · refine Or.inr ⟨b' ++ endTagText tag.name ++ rest.source, by simp, ?_⟩
          have := hasAt_content h hn hat
          simpa using this

/-- Where the text of an element stands in the source of a document, such an element is. -/
theorem WellFormed.hasAt {d : Document} (h : d.WellFormed) (hs : d.Rawless)
    {x : OpenTag × Document} (ht : x.1.WellFormed) (hx : x.2.WellFormed) {a b : Text}
    (e : d.source = a ++ elementSource x ++ b) : d.HasAt a x b := by
  rcases h.occurs hs ht hx (a := a) (b := b) (r := []) (by simpa using e) with ⟨a', -, e'⟩ | ⟨b', rfl, hat⟩
  · rw [elementSource_append] at e'
    simp at e'
  · simpa using hat

end Document
end Stencil.Html
