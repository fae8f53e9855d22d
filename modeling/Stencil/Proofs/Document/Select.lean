import Stencil.Proofs.Document.Edit
import Stencil.Proofs.Document.Splice

set_option autoImplicit false

/-! # Selecting by a name or an attribute

Selectors compare names up to the case of ASCII letters. The names of well-formed tags are in
small letters, so a selector in small letters takes the elements of just that name, or those
with just that attribute.
-/

namespace Stencil.Html

open Text

/-! ## Names in small letters -/

theorem sameName_iff {a b : Text} (ha : a.map CodePoint.toLower = a)
    (hb : b.map CodePoint.toLower = b) :
    sameName a b = decide (b = a) := by
  rw [sameName, ha, hb, Bool.beq_eq_decide_eq]
  exact decide_eq_decide.2 eq_comm

theorem map_toLower_of_isElementName {name : Text} (h : isElementName name = true) :
    name.map CodePoint.toLower = name :=
  map_toLower_eq_self (forall_mem_name (fun c => c.toLower = c) (by decide) h)

namespace OpenTag

/-- Whether an element has an attribute is asked without regard to case. -/
theorem hasAttr_tagAt_map (attr : Text) (t : OpenTag) (p : Position) :
    Selector.hasAttr (t.tagAt p) attr = t.table.has (attr.map CodePoint.toLower) := by
  rw [Bool.eq_iff_iff, Table.has_iff, Table.names, List.mem_map, Selector.hasAttr, List.any_eq_true]
  refine exists_congr fun x => and_congr_right fun hx => ?_
  obtain ⟨a, ha, rfl⟩ := exists_of_mem_table hx
  show (attr.map CodePoint.toLower == (lower a.name).map CodePoint.toLower) = true ↔ _
  rw [map_toLower_lower, beq_iff_eq, eq_comm]

theorem hasAttr_tagAt {attr : Text} (hattr : attr.map CodePoint.toLower = attr) (t : OpenTag)
    (p : Position) :
    Selector.hasAttr (t.tagAt p) attr = t.table.has attr := by
  rw [hasAttr_tagAt_map, hattr]

/-- An attribute in small letters selects the elements that have it. -/
theorem selectedBy_ofAttr {attr : Text} (hattr : attr.map CodePoint.toLower = attr) (t : OpenTag) :
    t.selectedBy (.ofAttr attr) = t.table.has attr := by
  rw [selectedBy, ← hasAttr_tagAt hattr t .origin]
  simp [Selector.ofAttr, Selector.selects]

/-- A name in small letters selects the elements of that name. -/
theorem IsWritten.selectedBy_ofName {t : OpenTag} (h : t.IsWritten) {name : Text}
    (hname : name.map CodePoint.toLower = name) :
    t.selectedBy (.ofName name) = decide (t.name = name) := by
  simp [OpenTag.selectedBy, Selector.ofName, Selector.selects, OpenTag.tagAt,
    sameName_iff hname (map_toLower_of_isElementName h.name)]

theorem WellFormed.selectedBy_ofName {t : OpenTag} (h : t.WellFormed) {name : Text}
    (hname : name.map CodePoint.toLower = name) :
    t.selectedBy (.ofName name) = decide (t.name = name) := h.isWritten.selectedBy_ofName hname

end OpenTag

/-- A document whose elements have other names is untouched. -/
theorem Document.Lacks.untouched {name : Text} (hname : name.map CodePoint.toLower = name)
    {d : Document}
    (hd : d.Lacks name) (hwf : ∀ x ∈ d.elements, x.1.WellFormed) : d.Untouched (.ofName name) := by
  intro x hx
  rw [(hwf x hx).selectedBy_ofName hname]
  exact decide_eq_false (hd x hx)

namespace Document.WellFormed

variable {d : Document} (h : d.WellFormed)

include h

theorem untouched_of_lacks {name : Text} (hname : name.map CodePoint.toLower = name)
    (hd : d.Lacks name) : d.Untouched (.ofName name) := hd.untouched hname h.tag_of_mem

theorem name_of_selected {name : Text} (hname : name.map CodePoint.toLower = name)
    {x : OpenTag × Document} (hx : x ∈ d.elements) (hsel : x.1.selectedBy (.ofName name) = true) :
    x.1.name = name := by
  rw [(h.tag_of_mem x hx).selectedBy_ofName hname] at hsel
  exact of_decide_eq_true hsel

end Document.WellFormed
end Stencil.Html
