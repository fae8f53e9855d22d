import Stencil.Proofs.Scope.Stamp
import Stencil.Proofs.Template.Compile

set_option autoImplicit false

/-! # Expanding imports with scoped style sheets

Besides what an import stands for, compiling decides which markers its fragment carries: the
style sheets of the fragment are confined, the strict markers in force are put on its elements,
and an element with its loose markers is left around it. `ScopeExpands` says this on documents,
without wrappers, and lists the imports that were expanded, in the order in which their markers
were drawn. The compiler does it on texts, level by level, with wrappers that it takes out
again.
-/

namespace Stencil

open Text Html Vocabulary

/-! ## Expansions -/

namespace Html

/-- The start tag of the element that is left around a fragment with loose markers. -/
def enclosure (loose : List Text) : OpenTag :=
  .ofTable "div".text (loose.map fun M => (looseAttr M, []))

/-- A document inside an element with some loose markers, if there are any. -/
def Document.enclosed (loose : List Text) (d : Document) : Document :=
  if loose.isEmpty then d else d.inside (enclosure loose)

end Html

/-- An import that was expanded: its start tag, the markers that were drawn for it, and what its
fragment became. -/
structure Expansion where
  tag : OpenTag
  marks : List ScopeMark
  out : Document

namespace Expansion

variable (x : Expansion)

/-- The markers that were drawn for an import, in order. -/
def drawn : List Text := x.marks.map ScopeMark.marker

/-- The loose markers of an import. -/
def loose : List Text := ScopeMark.ofKind .loose x.marks

/-- The strict markers of an import. -/
def strict : List Text := ScopeMark.ofKind .strict x.marks

/-- What stands in the place of an import. -/
def placed : Document := x.out.enclosed x.loose

variable {x}

theorem loose_subset : x.loose ⊆ x.drawn := (ScopeMark.ofKind_sublist .loose x.marks).subset

theorem strict_subset : x.strict ⊆ x.drawn := (ScopeMark.ofKind_sublist .strict x.marks).subset

end Expansion

/-- The expansion of a document in which some strict markers are in force, with the imports that
were expanded on the way. Every import gives way to its fragment, confined by the markers that
were drawn for it and expanded in its turn. -/
inductive ScopeExpands (store : Store) :
    List Text → Document → List Expansion → Document → Prop where
  | text {strict : List Text} (s : Text) : ScopeExpands store strict (.text s) [] (.text s)
  | element {strict : List Text} {before : Text} {tag : OpenTag}
      {content content' rest rest' : Document} {xs ys : List Expansion} :
      tag.name ≠ importTag → ScopeExpands store strict content xs content' →
      ScopeExpands store strict rest ys rest' →
      ScopeExpands store strict (.element before tag content rest) (xs ++ ys)
        (.element before (tag.marked strict) content' rest')
  | fragment {strict : List Text} {before : Text} {tag : OpenTag}
      {content rest body e out rest' : Document} {ms : List ScopeMark} {xs ys : List Expansion} :
      tag.name = importTag → body.WellFormed → body.source = fragmentText store tag →
      body.Confines ms e → ScopeExpands store (strict ++ ScopeMark.ofKind .strict ms) e xs out →
      ScopeExpands store strict rest ys rest' →
      ScopeExpands store strict (.element before tag content rest) (⟨tag, ms, out⟩ :: (xs ++ ys))
        (.text before ++ out.enclosed (ScopeMark.ofKind .loose ms) ++ rest')

namespace Html

/-! ## Wrappers with loose markers -/

/-- The attributes of a wrapper with loose markers that are all different. -/
theorem table_wrapperWith {loose : List Text} (h : ∀ M ∈ loose, IsMarker M) (hnodup : loose.Nodup) :
    (wrapperWith loose).table = (wrapperAttr, []) :: loose.map fun M => (looseAttr M, []) := by
  have hpairs : (wrapperWith loose).pairs
      = (wrapperAttr, []) :: loose.map fun M => (looseAttr M, []) := by
    rw [wrapperWith, OpenTag.pairs_withAttrs (isAttrName_looseAttr h), List.map_map]
    rfl
  have hnames : Table.names ((wrapperAttr, []) :: loose.map fun M => (looseAttr M, []))
      = wrapperAttr :: loose.map looseAttr := by
    simp [Table.names, Function.comp_def]
  rw [OpenTag.table, hpairs, Table.ofPairs_eq_self]
  rw [hnames, List.nodup_cons]
  exact ⟨wrapperAttr_not_mem_loose loose, hnodup.map looseAttr_injective⟩

/-- What is left of a wrapper: the element with its loose markers, if there are any. -/
theorem unwrapTag_wrapperWith {loose : List Text} (h : ∀ M ∈ loose, IsMarker M)
    (hnodup : loose.Nodup) :
    unwrapTag (wrapperWith loose) = if loose.isEmpty then none else some (enclosure loose) := by
  have herase : (wrapperWith loose).table.erase wrapperAttr
      = loose.map fun M => (looseAttr M, []) := by
    rw [table_wrapperWith h hnodup, Table.erase, List.filter_cons_of_neg (by simp),
      List.filter_eq_self]
    intro x hx
    obtain ⟨M, -, rfl⟩ := List.mem_map.1 hx
    simpa using looseAttr_ne_wrapperAttr M
  rw [unwrapTag, if_pos (wrapperWith_wrapperAttr h), herase, name_wrapperWith]
  cases loose <;> rfl

namespace Document

/-- A document inside a wrapper with some loose markers, or by itself. -/
def wrapped (d : Document) : Option (List Text) → Document
  | none => d
  | some loose => d.inside (wrapperWith loose)

/-- Clearing takes the wrapper off and leaves the element with its loose markers. -/
theorem cleared_wrapped {wrapper : Option (List Text)}
    (h : ∀ M ∈ wrapper.getD [], IsMarker M) (hnodup : (wrapper.getD []).Nodup) (d : Document) :
    (d.wrapped wrapper).cleared = d.cleared.enclosed (wrapper.getD []) := by
  cases wrapper with
  | none => rfl
  | some loose =>
      have hopen : unwrapTag (wrapperWith loose)
          = if loose.isEmpty then none else some (enclosure loose) := unwrapTag_wrapperWith h hnodup
      rw [wrapped, inside, cleared, retag, hopen, Option.getD_some, enclosed]
      cases loose with
      | nil => simp [retag, cleared]
      | cons M loose => rfl

theorem mem_elements_wrapped {wrapper : Option (List Text)} {d : Document}
    {x : OpenTag × Document} (hx : x ∈ (d.wrapped wrapper).elements) :
    (∃ loose, wrapper = some loose ∧ x = (wrapperWith loose, d)) ∨ x ∈ d.elements := by
  cases wrapper with
  | none => exact Or.inr hx
  | some loose => simpa [wrapped, inside] using hx

theorem mem_wrapped_of_mem {d : Document} {x : OpenTag × Document} (hx : x ∈ d.elements)
    (wrapper : Option (List Text)) : x ∈ (d.wrapped wrapper).elements := by
  cases wrapper with
  | none => exact hx
  | some loose => simp [wrapped, inside, hx]

/-! ## Documents without imports -/

/-- A document in which only wrappers are left to take out. -/
structure IsComposed (d : Document) : Prop where
  wellFormed : d.WellFormed
  importless : d.Lacks importTag
  wrappers : ∀ x ∈ d.elements, x.1.table.has wrapperAttr = true → x.1.name ∉ RawText.names

namespace IsComposed

variable {d e : Document}

theorem append (hd : d.IsComposed) (he : e.IsComposed) : (d ++ e).IsComposed := by
  refine ⟨hd.wellFormed.append he.wellFormed, fun x hx => ?_, fun x hx => ?_⟩
  all_goals
    rw [elements_append, List.mem_append] at hx
    rcases hx with hx | hx
  exacts [hd.importless x hx, he.importless x hx, hd.wrappers x hx, he.wrappers x hx]

theorem wrapped (h : d.IsComposed) {wrapper : Option (List Text)}
    (hw : ∀ M ∈ wrapper.getD [], IsMarker M) : (d.wrapped wrapper).IsComposed := by
  cases wrapper with
  | none => exact h
  | some loose =>
      refine ⟨wellFormed_inside_wrapperWith hw h.wellFormed, fun x hx => ?_, fun x hx => ?_⟩
      all_goals
        rcases mem_elements_wrapped hx with ⟨l, hl, rfl⟩ | hx
      · obtain rfl := Option.some.inj hl
        rw [name_wrapperWith]
        decide
      · exact h.importless x hx
      · obtain rfl := Option.some.inj hl
        rw [name_wrapperWith]
        exact fun _ => by decide
      · exact h.wrappers x hx

theorem clear_source (h : d.IsComposed) : Wrapper.clear d.source = .ok d.cleared.source :=
  h.wellFormed.clear_source h.wrappers

theorem unwrapped_cleared (h : d.IsComposed) :
    ∀ x ∈ d.cleared.elements, x.1.table.has wrapperAttr = false := by
  intro x hx
  obtain ⟨y, hy, e⟩ := exists_of_mem_retag hx
  exact unwrapped_of_unwrapTag (h.wellFormed.tag_of_mem y hy) e

theorem cleared (h : d.IsComposed) : d.cleared.IsComposed where
  wellFormed := h.wellFormed.retag (settles_unwrapTag h.wellFormed h.wrappers)
  importless := by
    intro x hx
    obtain ⟨y, hy, e⟩ := exists_of_mem_retag hx
    rw [name_of_unwrapTag e]
    exact h.importless y hy
  wrappers := fun x hx hw => by
    rw [h.unwrapped_cleared x hx] at hw
    exact absurd hw (by decide)

theorem quiet (h : d.IsComposed) : Quiet (.ofName importTag) d.source :=
  h.wellFormed.quiet (h.wellFormed.untouched_of_lacks (by decide) h.importless)

end IsComposed

/-! ## Marked documents -/

theorem marked_element (strict : List Text) (before : Text) (tag : OpenTag)
    (content rest : Document) :
    (element before tag content rest).marked strict
      = element before (tag.marked strict) (content.marked strict) (rest.marked strict) := rfl

theorem elements_marked (strict : List Text) (d : Document) :
    (d.marked strict).elements
      = d.elements.map fun x => (x.1.marked strict, x.2.marked strict) := by
  induction d with
  | text s => rfl
  | element before tag content rest ihc ihr =>
      rw [marked_element, elements_element, ihc, ihr]
      simp

end Document

/-- Strict markers leave the values of other attributes as they are. -/
theorem OpenTag.attr?_marked {strict : List Text} (h : ∀ M ∈ strict, IsMarker M) {t : OpenTag}
    {name : Text} (hname : name ∉ strict.map strictAttr) :
    (t.marked strict).attr? name = t.attr? name := by
  rw [marked]
  split
  · rfl
  · exact get?_withAttrs (isAttrName_strictAttr h) hname

/-- A marked tag has the attributes of the strict markers, unless it is a style sheet. -/
theorem OpenTag.has_marked {strict : List Text} (h : ∀ M ∈ strict, IsMarker M) (t : OpenTag)
    (name : Text) :
    (t.marked strict).table.has name = true
      ↔ t.table.has name = true ∨ t.name ≠ sheetName ∧ name ∈ strict.map strictAttr := by
  rw [marked]
  split
  · rename_i hn
    simp [hn]
  · rename_i hn
    rw [has_withAttrs (isAttrName_strictAttr h)]
    simp [hn]

/-- Marking makes no wrapper. -/
theorem OpenTag.unwrapped_marked {strict : List Text} (h : ∀ M ∈ strict, IsMarker M) {t : OpenTag}
    (ht : t.table.has wrapperAttr = false) : (t.marked strict).table.has wrapperAttr = false := by
  rw [Bool.eq_false_iff, ne_eq, has_marked h]
  rintro (hw | ⟨-, hw⟩)
  · rw [ht] at hw
    exact absurd hw (by decide)
  · exact wrapperAttr_not_mem_strict strict hw

theorem OpenTag.WellFormed.marked {strict : List Text} (h : ∀ M ∈ strict, IsMarker M) {t : OpenTag}
    (ht : t.WellFormed) : (t.marked strict).WellFormed := by
  rw [OpenTag.marked]
  split
  exacts [ht, ht.withAttrs fun n hn => (isAttrName_strictAttr h n hn).toIsAttrWord]

namespace Document

theorem WellFormed.marked {strict : List Text} (h : ∀ M ∈ strict, IsMarker M) {d : Document}
    (hd : d.WellFormed) : (d.marked strict).WellFormed := by
  induction hd with
  | text hs => exact .text hs
  | element hb ht hn _ _ ihc ihr =>
      exact .element hb (ht.marked h) (by rwa [OpenTag.name_marked]) ihc ihr
  | raw hb ht hn hcss _ ihr =>
      exact .raw hb (ht.marked h) (by rwa [OpenTag.name_marked]) hcss ihr

theorem WellFormed.wrapped {d : Document} (h : d.WellFormed) {wrapper : Option (List Text)}
    (hw : ∀ M ∈ wrapper.getD [], IsMarker M) : (d.wrapped wrapper).WellFormed := by
  cases wrapper with
  | none => exact h
  | some loose => exact wellFormed_inside_wrapperWith hw h

theorem Lacks.wrapped {d : Document} {name : Text} (h : d.Lacks name) (hn : name ≠ "div".text)
    (wrapper : Option (List Text)) : (d.wrapped wrapper).Lacks name := by
  intro x hx
  rcases mem_elements_wrapped hx with ⟨loose, -, rfl⟩ | hx
  · rw [name_wrapperWith]
    exact hn.symm
  · exact h x hx

theorem Lacks.marked {d : Document} {name : Text} (h : d.Lacks name) (strict : List Text) :
    (d.marked strict).Lacks name := by
  intro x hx
  rw [elements_marked] at hx
  obtain ⟨y, hy, rfl⟩ := List.mem_map.1 hx
  rw [OpenTag.name_marked]
  exact h y hy

/-- A marked document without imports and wrappers. -/
theorem IsComposed.marked {strict : List Text} (hstrict : ∀ M ∈ strict, IsMarker M) {d : Document}
    (h : d.WellFormed) (hd : d.Lacks importTag)
    (hun : ∀ x ∈ (d.marked strict).elements, x.1.table.has wrapperAttr = false) :
    (d.marked strict).IsComposed := by
  refine ⟨h.marked hstrict, hd.marked strict, fun x hx hw => ?_⟩
  rw [hun x hx] at hw
  exact absurd hw (by decide)

/-- Without imports, nothing is drawn, and only the strict markers in force are put on. -/
theorem scopeExpands_of_lacks (store : Store) (strict : List Text) {d : Document}
    (h : d.Lacks importTag) : ScopeExpands store strict d [] (d.marked strict) := by
  induction d with
  | text s => exact .text s
  | element before tag content rest ihc ihr =>
      exact .element (h (tag, content) (by simp)) (ihc fun x hx => h x (by simp [hx]))
        (ihr fun x hx => h x (by simp [hx]))

end Document
end Html

/-! ## Texts that stand for an expansion -/

/-- Whether a text is what comes of a document inside an element with some loose markers, up to
wrappers, when the work on it draws the markers of the imports in it between two sessions. -/
def Composes (store : Store) (markers : Markers) (strict loose : List Text) (d : Document)
    (s : Session) (t : Text) (s' : Session) : Prop :=
  ∃ (mid : Document) (xs : List Expansion) (out : Document), t = mid.source ∧ mid.IsComposed ∧
    mid.cleared = out.enclosed loose ∧ ScopeExpands store strict d xs out ∧
    s.Draws markers (xs.flatMap Expansion.drawn) s'

namespace Composes

variable {store : Store} {markers : Markers} {strict : List Text} {before t t' : Text}
  {tag : OpenTag} {content rest : Document} {s s₁ s₂ : Session}

theorem text {u : Text} (hu : IsRunning u) :
    Composes store markers strict [] (.text u) s u s :=
  ⟨.text u, [], .text u, rfl, ⟨.text hu, by simp [Document.Lacks], by simp⟩, rfl, .text u, .nil⟩

/-- An element that is no import and has no raw text stays, with the strict markers in force. -/
theorem element (hstrict : ∀ M ∈ strict, IsMarker M) (hb : IsRunning before) (ht : tag.WellFormed)
    (hraw : tag.name ∉ RawText.names) (hn : tag.name ≠ importTag)
    (hun : tag.table.has wrapperAttr = false)
    (hcontent : Composes store markers strict [] content s t s₁)
    (hrest : Composes store markers strict [] rest s₁ t' s₂) :
    Composes store markers strict [] (.element before tag content rest) s
      (before ++ (tag.marked strict).source ++ t ++ endTagText (tag.marked strict).name ++ t')
      s₂ := by
  obtain ⟨mid, xs, out, rfl, hmid, hclear, hexp, hdraws⟩ := hcontent
  obtain ⟨mid', ys, out', rfl, hmid', hclear', hexp', hdraws'⟩ := hrest
  have hname := OpenTag.name_marked strict tag
  have hunwrapped := OpenTag.unwrapped_marked hstrict hun
  refine ⟨.element before (tag.marked strict) mid mid', xs ++ ys, _, rfl, ?_, ?_,
    .element hn hexp hexp', ?_⟩
  · refine ⟨.element hb (ht.marked hstrict) (by rwa [hname]) hmid.wellFormed hmid'.wellFormed,
      fun x hx => ?_, fun x hx => ?_⟩
    all_goals
      simp only [Document.elements_element, List.mem_cons, List.mem_append] at hx
      rcases hx with rfl | hx | hx
    exacts [by rwa [hname], hmid.importless x hx, hmid'.importless x hx,
      fun _ => by rwa [hname], hmid.wrappers x hx, hmid'.wrappers x hx]
  · rw [Document.cleared, Document.retag, unwrapTag_of_unwrapped hunwrapped]
    exact congrArg₂ (Document.element before (tag.marked strict)) hclear hclear'
  · rw [List.flatMap_append]
    exact hdraws.append hdraws'

/-- A script or a style sheet keeps its text; strict markers are put on a script. -/
theorem raw (hstrict : ∀ M ∈ strict, IsMarker M) {css : Text} (hb : IsRunning before)
    (ht : tag.WellFormed) (hraw : tag.name ∈ RawText.names) (hcss : char '<' ∉ css)
    (hun : tag.table.has wrapperAttr = false)
    (hrest : Composes store markers strict [] rest s t s₁) :
    Composes store markers strict [] (.element before tag (.text css) rest) s
      (before ++ (tag.marked strict).source ++ css ++ endTagText (tag.marked strict).name ++ t)
      s₁ := by
  obtain ⟨mid, xs, out, rfl, hmid, hclear, hexp, hdraws⟩ := hrest
  have hname := OpenTag.name_marked strict tag
  have hunwrapped := OpenTag.unwrapped_marked hstrict hun
  have hn : tag.name ≠ importTag := by
    rintro e
    rw [e] at hraw
    exact absurd hraw (by decide)
  refine ⟨.element before (tag.marked strict) (.text css) mid, [] ++ xs, _, rfl, ?_, ?_,
    .element hn (.text css) hexp, hdraws⟩
  · refine ⟨.raw hb (ht.marked hstrict) (by rwa [hname]) hcss hmid.wellFormed, fun x hx => ?_,
      fun x hx => ?_⟩
    all_goals
      simp only [Document.elements_element, Document.elements_text, List.nil_append,
        List.mem_cons] at hx
      rcases hx with rfl | hx
    · rwa [hname]
    · exact hmid.importless x hx
    · intro hw
      rw [hunwrapped] at hw
      exact absurd hw (by decide)
    · exact hmid.wrappers x hx
  · rw [Document.cleared, Document.retag, unwrapTag_of_unwrapped hunwrapped]
    exact congrArg (Document.element before (tag.marked strict) (.text css)) hclear

/-- An import gives way to what stands for it alone. -/
theorem fragment (hb : IsRunning before) (hn : tag.name = importTag)
    (halone : Composes store markers strict [] (.element [] tag (.text []) (.text [])) s t s₁)
    (hrest : Composes store markers strict [] rest s₁ t' s₂) :
    Composes store markers strict [] (.element before tag content rest) s (before ++ t ++ t')
      s₂ := by
  obtain ⟨mid, xs, out, rfl, hmid, hclear, hexp, hdraws⟩ := halone
  obtain ⟨mid', ys, out', rfl, hmid', hclear', hexp', hdraws'⟩ := hrest
  have hfront : (Document.text before).IsComposed :=
    ⟨.text hb, by simp [Document.Lacks], by simp⟩
  cases hexp with
  | element hn' => exact absurd hn hn'
  | @fragment _ _ _ _ _ body e out _ ms xs zs _ hwf hbody hconfines hexp hnone =>
      cases hnone
      refine ⟨.text before ++ mid ++ mid', ⟨tag, ms, out⟩ :: (xs ++ ys), _, ?_,
        (hfront.append hmid).append hmid', ?_, .fragment hn hwf hbody hconfines hexp hexp', ?_⟩
      · rw [Document.source_append, Document.source_append]
        rfl
      · rw [Document.cleared_append, Document.cleared_append, hclear, hclear']
        simp [Document.enclosed, Document.cleared_text]
      · have h := hdraws.append hdraws'
        simpa using h

end Composes
end Stencil
