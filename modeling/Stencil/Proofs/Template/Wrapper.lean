import Stencil.Scope.Styles
import Stencil.Proofs.Document.Edit
import Stencil.Proofs.Document.Select
import Stencil.Proofs.Template.WellFormed

set_option autoImplicit false

/-! # Wrappers on documents

A fragment without scoped style sheets only gets a wrapper around it, and clearing takes the
wrappers off a document, those inside others too.
-/

namespace Stencil

open Text Html Vocabulary

namespace Html

/-! ## A document inside a wrapper -/

namespace Document

/-- A document as the content of one element. -/
def inside (t : OpenTag) (d : Document) : Document := element [] t d (text [])

theorem WellFormed.inside {t : OpenTag} (ht : t.WellFormed) (hn : t.name ∉ RawText.names) {d : Document}
    (h : d.WellFormed) : (d.inside t).WellFormed :=
  .element (by simp [IsRunning]) ht hn h (.text (by simp [IsRunning]))

end Document

/-- The start tag of a wrapper. -/
def wrapperOpen : OpenTag := ⟨"div".text, [⟨[' '], wrapperAttr, []⟩], []⟩

theorem wellFormed_wrapperOpen : wrapperOpen.WellFormed := by decide +kernel

theorem around_eq (s : Text) :
    Wrapper.around s = wrapperOpen.source ++ (s ++ endTagText wrapperOpen.name) := by
  have hstart : wrapperOpen.source = startTagText "div".text [(wrapperAttr, [])] := by decide
  rw [Wrapper.around, hstart, List.append_assoc]
  rfl

theorem source_inside_wrapperOpen (d : Document) :
    (d.inside wrapperOpen).source = Wrapper.around d.source := by
  simp [Document.inside, Document.source, around_eq]

/-! ## Clearing -/

/-- What is left of a start tag when wrappers are cleared. -/
def unwrapTag (t : OpenTag) : Option OpenTag :=
  if t.table.has wrapperAttr then
    if (t.table.erase wrapperAttr).isEmpty then none
    else some (.ofTable t.name (t.table.erase wrapperAttr))
  else some t

/-- A document without its wrappers. -/
def Document.cleared (d : Document) : Document := d.retag unwrapTag

theorem has_erase (t : Table) (name : Text) : (t.erase name).has name = false := by
  rw [Bool.eq_false_iff, ne_eq, Table.has_iff, Table.names_erase]
  simp

theorem unwrapTag_of_unwrapped {t : OpenTag} (h : t.table.has wrapperAttr = false) :
    unwrapTag t = some t := by
  rw [unwrapTag, if_neg (by simp [h])]

theorem unwrapTag_eq_some {t u : OpenTag} (h : unwrapTag t = some u) :
    u = t ∧ t.table.has wrapperAttr = false ∨
      u = .ofTable t.name (t.table.erase wrapperAttr) ∧ t.table.has wrapperAttr = true := by
  rw [unwrapTag] at h
  split at h
  · rename_i ht
    split at h
    · simp at h
    · exact Or.inr ⟨(Option.some.inj h).symm, ht⟩
  · rename_i ht
    exact Or.inl ⟨(Option.some.inj h).symm, by simpa using ht⟩

theorem name_of_unwrapTag {t u : OpenTag} (h : unwrapTag t = some u) : u.name = t.name := by
  rcases unwrapTag_eq_some h with ⟨rfl, -⟩ | ⟨rfl, -⟩ <;> rfl

theorem unwrapped_of_unwrapTag {t u : OpenTag} (ht : t.WellFormed) (h : unwrapTag t = some u) :
    u.table.has wrapperAttr = false := by
  rcases unwrapTag_eq_some h with ⟨rfl, hw⟩ | ⟨rfl, -⟩
  · exact hw
  · rw [OpenTag.table_ofTable _ (ht.isAttrTable.erase wrapperAttr)]
    exact has_erase _ _

/-- Clearing wrappers settles when no wrapper is a style sheet. -/
theorem settles_unwrapTag {d : Document} (h : d.WellFormed)
    (hd : ∀ x ∈ d.elements, x.1.table.has wrapperAttr = true → x.1.name ∉ RawText.names) :
    d.Settles unwrapTag where
  wellFormed := by
    intro x hx u hu
    have ht := h.tag_of_mem x hx
    rcases unwrapTag_eq_some hu with ⟨rfl, -⟩ | ⟨rfl, -⟩
    exacts [ht, ht.ofTable (ht.isAttrTable.erase wrapperAttr)]
  raw := by
    intro x hx u hu
    rw [name_of_unwrapTag hu]
  again := fun x hx u hu =>
    unwrapTag_of_unwrapped (unwrapped_of_unwrapTag (h.tag_of_mem x hx) hu)
  not_raw := by
    intro x hx hu
    refine hd x hx ?_
    by_contra hn
    rw [unwrapTag_of_unwrapped (by simpa using hn)] at hu
    simp at hu

theorem unwrap_matchAt {t : OpenTag} (h : t.WellFormed) (hw : t.table.has wrapperAttr = true)
    (p : Position) (c : Document) :
    Wrapper.unwrap (t.matchAt p c) = frontOf unwrapTag t ++ c.source ++ backOf unwrapTag t := by
  show (if (t.table.erase wrapperAttr).isEmpty then c.source
    else startTagText t.name (t.table.erase wrapperAttr) ++ c.source ++ endTagText t.name) = _
  rw [frontOf, backOf, unwrapTag, if_pos hw,
    startTagText_eq_source _ (h.isAttrTable.erase wrapperAttr)]
  split
  · simp
  · rfl

/-- Clearing the wrappers of a source. -/
theorem Document.WellFormed.clear_source {d : Document} (h : d.WellFormed)
    (hd : ∀ x ∈ d.elements, x.1.table.has wrapperAttr = true → x.1.name ∉ RawText.names) :
    Wrapper.clear d.source = .ok d.cleared.source := by
  have hsel : ∀ x ∈ d.elements, x.1.selectedBy (.ofAttr wrapperAttr) = x.1.table.has wrapperAttr :=
    fun x _ => OpenTag.selectedBy_ofAttr (by decide) x.1
  rw [Wrapper.clear, h.expandSelfClosing_source]
  refine congrArg ExceptT.run (h.replaceMatches_outer (settles_unwrapTag h hd) (by decide) ?_ ?_ ?_)
  · intro x hx hs
    rw [hsel x hx] at hs
    exact unwrapTag_of_unwrapped hs
  · intro x hx hs e
    rw [hsel x hx, unwrapped_of_unwrapTag (h.tag_of_mem x hx) e] at hs
    exact absurd hs (by decide)
  · intro x hx hs p
    rw [hsel x hx] at hs
    exact congrArg pure (unwrap_matchAt (h.tag_of_mem x hx) hs p x.2)

namespace Document

theorem cleared_text (s : Text) : (text s).cleared = text s := rfl

theorem cleared_append (d e : Document) : (d ++ e).cleared = d.cleared ++ e.cleared :=
  retag_append unwrapTag d e

theorem cleared_of_unwrapped {d : Document} (h : ∀ x ∈ d.elements, x.1.table.has wrapperAttr = false) :
    d.cleared = d := by
  rw [cleared, retag_congr (g := some) fun x hx => unwrapTag_of_unwrapped (h x hx), retag_some]

/-- Clearing takes a wrapper without other attributes off its content. -/
theorem cleared_inside (d : Document) : (d.inside wrapperOpen).cleared = d.cleared := by
  have h : unwrapTag wrapperOpen = none := by decide
  rw [inside, cleared, retag, h]
  simp [retag, cleared]

end Document

end Html

/-! ## Fragments without style sheets to scope -/

namespace Scope

theorem selectedBy_scopedSheets {t : OpenTag} (ht : t.WellFormed) (hn : t.name ≠ sheetName) :
    t.selectedBy scopedSheets = false := by
  have hname : sameName sheetName t.name = false := by
    rw [sameName_iff (by decide) (map_toLower_of_isElementName ht.name)]
    exact decide_eq_false hn
  show ((some sheetName).all (sameName · t.name) && _ && _ && _) = false
  rw [Option.all_some, hname]
  rfl

/-- It is known of markup that is not rejected whether it is a wrapper. -/
theorem exists_encloses_of_nodes {s : Text} {nodes : List Node} (h : Node.ofSource s = .ok nodes) :
    ∃ b, Wrapper.encloses s = .ok b := by
  rw [Wrapper.encloses, h]
  split
  exacts [⟨false, rfl⟩, ⟨_, rfl⟩]

theorem exists_encloses {d : Document} (h : d.WellFormed) : ∃ b, Wrapper.encloses d.source = .ok b := by
  obtain ⟨nodes, hnodes, -⟩ := h.ofSource
  exact exists_encloses_of_nodes hnodes

/-- Markup without wrappers is not itself inside one. -/
theorem encloses_of_unwrapped {s : Text} {nodes : List Node} (hnodes : Node.ofSource s = .ok nodes)
    (h : ∀ tag ∈ tagsOf nodes, tag.attrs.has wrapperAttr = false) :
    Wrapper.encloses s = .ok false := by
  rw [Wrapper.encloses]
  split
  · rfl
  · rw [hnodes]
    show Except.ok _ = Except.ok false
    congr 1
    dsimp only
    split
    · rename_i node hfilter
      have hnode : node ∈ nodes := by
        have hmem : node ∈ nodes.filter (!Wrapper.isBlankNode ·) := by simp [hfilter]
        exact (List.mem_filter.1 hmem).1
      cases node with
      | text kind s => rfl
      | element tag children => exact h tag (mem_tagsOf hnode)
    · rfl

/-- A document without wrappers is not itself inside one. -/
theorem encloses_source {d : Document} (h : d.WellFormed)
    (hd : ∀ x ∈ d.elements, x.1.table.has wrapperAttr = false) :
    Wrapper.encloses d.source = .ok false := by
  obtain ⟨nodes, hnodes, htags⟩ := h.ofSource
  refine encloses_of_unwrapped hnodes fun tag htag => ?_
  rw [htags] at htag
  obtain ⟨x, hx, q, rfl⟩ := Document.exists_of_mem_tagsFrom htag
  exact hd x hx

/-- A fragment that confining leaves as it is gets a wrapper, if it is not inside one, and no
marker. -/
theorem scopeStylesOf_of_confined {s : Text} {markers : Markers}
    (hconfined : replaceMatches (confineBlock markers) .outer scopedSheets none s = pure s)
    {b : Bool} (hb : Wrapper.encloses s = .ok b) :
    scopeStylesOf .empty markers s = pure (if b then s else Wrapper.around s, .empty) := by
  rw [scopeStylesOf, hconfined, Work.orFail_pure]
  simp only [StateT.run_pure, pure_bind, hb]
  cases b <;> rfl

/-- A document with nothing to scope gets a wrapper, if it is not inside one, and no marker. -/
theorem scopeStylesOf_of_encloses {d : Document} (h : d.WellFormed) (hs : d.Rawless) {b : Bool}
    (hb : Wrapper.encloses d.source = .ok b) (markers : Markers) :
    scopeStylesOf .empty markers d.source
      = pure (if b then d.source else Wrapper.around d.source, .empty) := by
  have hsheets : d.Untouched scopedSheets := fun x hx =>
    selectedBy_scopedSheets (h.tag_of_mem x hx) (hs.lacks_sheetName x hx)
  exact scopeStylesOf_of_confined (h.replaceMatches_of_untouched hsheets) hb

/-- A fragment without wrappers and with nothing to scope gets a wrapper. -/
theorem scopeStylesOf_source {d : Document} (h : d.WellFormed) (hs : d.Rawless)
    (hd : ∀ x ∈ d.elements, x.1.table.has wrapperAttr = false) (markers : Markers) :
    scopeStylesOf .empty markers d.source = pure (Wrapper.around d.source, .empty) :=
  scopeStylesOf_of_encloses h hs (encloses_source h hd) markers

end Scope
end Stencil
