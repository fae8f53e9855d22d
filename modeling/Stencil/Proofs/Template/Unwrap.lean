import Stencil.Proofs.Template.Wrapper

set_option autoImplicit false

/-! # Taking wrappers out of a document

Clearing is a recursion over the tree: an element that is nothing but a wrapper gives way to its
content, whose own wrappers are taken out in the same way, and a wrapper with other attributes
loses the one that makes it a wrapper. A wrapper that is kept has its start tag written anew,
with the names of the attributes in small letters; all other tags stay as they are written.
-/

namespace Stencil.Html

open Text Vocabulary

namespace OpenTag

/-- A start tag as it is written, without an attribute. -/
def without (t : OpenTag) (name : Text) : OpenTag :=
  { t with attrs := t.attrs.filter (lower ·.name ≠ name) }

/-- A start tag with the names of its attributes in small letters. -/
def inSmallLetters (t : OpenTag) : OpenTag :=
  { t with attrs := t.attrs.map fun a => { a with name := lower a.name } }

/-- A start tag with distinct attributes, one space before each of them and nothing behind. -/
structure IsSpaced (t : OpenTag) : Prop where
  gaps : ∀ a ∈ t.attrs, a.gap = [char ' ']
  tail : t.tail = []
  distinct : (Table.names t.pairs).Nodup

instance : DecidablePred IsSpaced := fun t =>
  decidable_of_iff ((∀ a ∈ t.attrs, a.gap = [char ' ']) ∧ t.tail = [] ∧ (Table.names t.pairs).Nodup)
    ⟨fun ⟨h₁, h₂, h₃⟩ => ⟨h₁, h₂, h₃⟩, fun ⟨h₁, h₂, h₃⟩ => ⟨h₁, h₂, h₃⟩⟩

/-- Names that are in small letters stay as they are written. -/
theorem inSmallLetters_eq_self {t : OpenTag} (h : ∀ a ∈ t.attrs, lower a.name = a.name) :
    t.inSmallLetters = t := by
  have hattrs : (t.attrs.map fun a => { a with name := lower a.name }) = t.attrs := by
    conv_rhs => rw [← List.map_id t.attrs]
    refine List.map_congr_left fun a ha => ?_
    rw [h a ha]
    rfl
  rw [inSmallLetters, hattrs]

/-- The attributes that are read off a start tag are those that are written in it. -/
theorem IsSpaced.erase_table {t : OpenTag} (h : t.IsSpaced) (name : Text) :
    t.table.erase name = (t.without name).attrs.map fun a => (lower a.name, a.value) := by
  rw [table, Table.ofPairs_eq_self h.distinct, Table.erase, pairs, List.filter_map]
  rfl

/-- Printing the attributes that are left gives the start tag as it is written, but for the
letters of their names. -/
theorem IsSpaced.ofTable_erase {t : OpenTag} (h : t.IsSpaced) (name : Text) :
    ofTable t.name (t.table.erase name) = (t.without name).inSmallLetters := by
  have hattrs : ((t.without name).attrs.map fun a => (⟨[' '], lower a.name, a.value⟩ : QuotedAttr))
      = (t.without name).attrs.map fun a => { a with name := lower a.name } := by
    refine List.map_congr_left fun a ha => ?_
    rw [← h.gaps a (List.mem_filter.1 ha).1]
  have htail : (t.without name).tail = [] := h.tail
  rw [ofTable, h.erase_table, List.map_map, inSmallLetters, ← hattrs, htail]
  rfl

end OpenTag

namespace Document

/-- A document without its wrappers. An element that is nothing but a wrapper gives way to its
content, and of any other a start tag is kept. -/
def unwrappedBy (kept : OpenTag → OpenTag) : Document → Document
  | text s => text s
  | element before tag content rest =>
      if tag.table.has wrapperAttr then
        if (tag.without wrapperAttr).attrs.isEmpty then
          text before ++ content.unwrappedBy kept ++ rest.unwrappedBy kept
        else element before (kept tag) (content.unwrappedBy kept) (rest.unwrappedBy kept)
      else element before tag (content.unwrappedBy kept) (rest.unwrappedBy kept)

/-- A document without its wrappers, in which the wrappers that are kept only lose an attribute. -/
def unwrapped (d : Document) : Document := d.unwrappedBy (·.without wrapperAttr)

theorem unwrappedBy_congr {f g : OpenTag → OpenTag} {d : Document}
    (h : ∀ x ∈ d.elements, x.1.table.has wrapperAttr = true → f x.1 = g x.1) :
    d.unwrappedBy f = d.unwrappedBy g := by
  induction d with
  | text s => rfl
  | element before tag content rest ihc ihr =>
      rw [unwrappedBy, unwrappedBy, ihc fun x hx => h x (by simp [hx]),
        ihr fun x hx => h x (by simp [hx])]
      by_cases hw : tag.table.has wrapperAttr = true
      · rw [h (tag, content) (by simp) hw]
      · rw [if_neg hw, if_neg hw]

/-- Clearing is the recursion over the tree. -/
theorem cleared_eq_unwrappedBy {d : Document}
    (h : ∀ x ∈ d.elements, x.1.table.has wrapperAttr = true → x.1.IsSpaced) :
    d.cleared = d.unwrappedBy fun t => (t.without wrapperAttr).inSmallLetters := by
  induction d with
  | text s => rfl
  | element before tag content rest ihc ihr =>
      have hcontent := ihc fun x hx => h x (by simp [hx])
      have hrest := ihr fun x hx => h x (by simp [hx])
      rw [cleared] at hcontent hrest
      rw [cleared, retag, unwrappedBy, unwrapTag, hcontent, hrest]
      by_cases hw : tag.table.has wrapperAttr = true
      · have hspaced : tag.IsSpaced := h (tag, content) (by simp) hw
        rw [if_pos hw, if_pos hw, hspaced.ofTable_erase, hspaced.erase_table, List.isEmpty_map]
        by_cases hnone : (tag.without wrapperAttr).attrs.isEmpty = true
        · rw [if_pos hnone, if_pos hnone]
        · rw [if_neg hnone, if_neg hnone]
      · rw [if_neg hw, if_neg hw]

end Document

/-- Clearing the source of a plain document takes its wrappers out of the tree, however they stand
inside each other and however alike they are written. A wrapper that is kept loses one attribute, and
nothing else changes but the letters in the names of its other attributes. -/
theorem clear_unwraps {d : Document} (hd : d.Plain)
    (hspaced : ∀ x ∈ d.elements, x.1.table.has wrapperAttr = true → x.1.IsSpaced) :
    Wrapper.clear d.source
        = .ok (d.unwrappedBy fun t => (t.without wrapperAttr).inSmallLetters).source ∧
      ((∀ x ∈ d.elements, x.1.table.has wrapperAttr = true →
          ∀ a ∈ x.1.attrs, lower a.name = a.name) →
        Wrapper.clear d.source = .ok d.unwrapped.source) := by
  have hclear : Wrapper.clear d.source
      = .ok (d.unwrappedBy fun t => (t.without wrapperAttr).inSmallLetters).source := by
    rw [hd.wellFormed.clear_source fun x hx _ => hd.rawless x hx,
      Document.cleared_eq_unwrappedBy hspaced]
  refine ⟨hclear, fun hsmall => ?_⟩
  rw [hclear, Document.unwrapped, Document.unwrappedBy_congr]
  intro x hx hw
  exact OpenTag.inSmallLetters_eq_self fun a ha => hsmall x hx hw a (List.mem_filter.1 ha).1

/-- Two wrappers inside a third that are written alike, and one with another attribute. -/
def nestedWrappers : Document :=
  .element "a".text wrapperOpen
    (.element [] wrapperOpen (.text "b".text)
      (.element [] wrapperOpen (.text "b".text) (.text "c".text)))
    (.element [] ⟨"p".text, [⟨[' '], "id".text, "x".text⟩, ⟨[' '], wrapperAttr, []⟩], []⟩
      (.element [] wrapperOpen (.text "d".text) (.text [])) (.text "e".text))

theorem clear_unwraps_nestedWrappers :
    nestedWrappers.Plain ∧
      (∀ x ∈ nestedWrappers.elements, x.1.table.has wrapperAttr = true → x.1.IsSpaced) ∧
      (∀ x ∈ nestedWrappers.elements, x.1.table.has wrapperAttr = true →
        ∀ a ∈ x.1.attrs, lower a.name = a.name) ∧
      Wrapper.clear nestedWrappers.source = .ok "abbc<p id=\"x\">d</p>e".text := by
  have hplain : nestedWrappers.Plain := by decide +kernel
  have hspaced : ∀ x ∈ nestedWrappers.elements,
      x.1.table.has wrapperAttr = true → x.1.IsSpaced := by decide +kernel
  have hsmall : ∀ x ∈ nestedWrappers.elements, x.1.table.has wrapperAttr = true →
      ∀ a ∈ x.1.attrs, lower a.name = a.name := by decide +kernel
  have hsource : nestedWrappers.unwrapped.source = "abbc<p id=\"x\">d</p>e".text := by
    decide +kernel
  exact ⟨hplain, hspaced, hsmall,
    ((clear_unwraps hplain hspaced).2 hsmall).trans (congrArg Except.ok hsource)⟩

/-- A wrapper with an attribute in capital letters. -/
def capitalWrapper : Document :=
  (Document.text "y".text).inside
    ⟨"div".text, [⟨[' '], wrapperAttr, []⟩, ⟨[' '], "ID".text, "x".text⟩], []⟩

/-- A wrapper that is kept does not always keep the letters of its other attributes. -/
theorem clear_capitalWrapper :
    capitalWrapper.Plain ∧ (∀ x ∈ capitalWrapper.elements, x.1.IsSpaced) ∧
      Wrapper.clear capitalWrapper.source = .ok "<div id=\"x\">y</div>".text ∧
      capitalWrapper.unwrapped.source = "<div ID=\"x\">y</div>".text := by
  decide +kernel

end Stencil.Html
