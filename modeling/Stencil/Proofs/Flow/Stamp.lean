import Stencil.Proofs.Flow.Patch
import Stencil.Proofs.Scope.Stamp

set_option autoImplicit false

/-! # Stamping a flow

A start tag that has been stamped has every attribute of the stamp, so stamping it again leaves
it as it is. That makes stamping a replacement that finds each start tag at its own place, as
long as no hidden text holds a copy of one.
-/

namespace Stencil

open Text Html

namespace Html

variable {names : List Text} {sel : Selector}

theorem OpenTag.closesItself_stamped (names : List Text) (sel : Selector) (t : OpenTag) :
    (t.stamped names sel).closesItself = t.closesItself := by
  rw [stamped]
  split
  exacts [closesItself_extend _ _, rfl]

section

variable (hnames : ∀ n ∈ names, IsAttrName n)

include hnames

theorem OpenTag.IsWritten.stamped {t : OpenTag} (ht : t.IsWritten) :
    (t.stamped names sel).IsWritten := by
  rw [OpenTag.stamped]
  split
  · exact ht.extend fun n hn => hnames n (List.mem_filter.1 hn).1
  · exact ht

/-- A start tag that looks like one which is stamped stays as it is when it is stamped. -/
theorem OpenTag.stamped_of_inside_eq {t u : OpenTag} (ht : t.IsWritten) (hu : u.IsWritten)
    (h : u.inside = (t.stamped names sel).inside) : u.stamped names sel = u := by
  have hstamped : (t.stamped names sel).IsWritten := ht.stamped hnames
  by_cases hsel : t.selectedBy sel = true
  · apply stamped_of_has
    intro n hn
    rw [(eq_of_inside_eq hu hstamped h).2]
    exact has_stamped hnames hsel hn
  · have hsame : t.stamped names sel = t := if_neg hsel
    rw [hsame] at h
    rw [OpenTag.stamped, if_neg]
    rwa [selectedBy_of_inside_eq hu ht h]

namespace Flow

variable {f : Flow} (hf : f.WellFormed)

include hf

/-- Stamping asks of new start tags what replacing start tags asks of them. -/
theorem WellFormed.renews_stamped : f.Renews sel (OpenTag.stamped names sel) where
  name := OpenTag.name_stamped names sel
  closesItself := OpenTag.closesItself_stamped names sel
  isWritten := fun t ht => (hf.tag t ht).stamped hnames
  passed := fun t _ h => if_neg (by simp [h])
  again := fun t ht u hu e =>
    OpenTag.stamped_of_inside_eq hnames (hf.tag t ht) (hf.tag u hu) e

end Flow

end

/-- What a stamp puts in the place of a start tag. -/
theorem renewing_stamped {t : OpenTag} (ht : t.IsWritten) (hsel : t.selectedBy sel = true) :
    Flow.Renewing (fun m => pure (appendAttributes m.start (names.filter (!m.tag.attrs.has ·))))
      (OpenTag.stamped names sel) t := by
  intro m htag hstart
  have hattrs : m.tag.attrs = t.table := by rw [htag]; rfl
  show pure (appendAttributes m.start (names.filter (!m.tag.attrs.has ·))) = _
  rw [hattrs, hstart, ht.appendAttributes_source, OpenTag.stamped, if_pos hsel]

namespace Flow

variable {f : Flow} (hf : f.WellFormed) (hnames : ∀ n ∈ names, IsAttrName n)

include hf hnames

/-- Stamping the start tags of all elements that a selector takes. -/
theorem WellFormed.stamp_source (hhides : f.HidesNo sel) :
    Scope.stamp names sel none f.source = .ok (f.retag (OpenTag.stamped names sel)).source := by
  rw [Scope.stamp]
  by_cases hempty : names = []
  · -- no attribute at all
    subst hempty
    rw [if_pos List.isEmpty_nil, retag_eq_self fun t _ => OpenTag.stamped_nil sel t]
    rfl
  · rw [if_neg (by simpa using hempty)]
    have key := hf.replaceMatches_retag (hf.renews_stamped hnames) hhides
      fun t ht hselected => renewing_stamped (hf.tag t ht) hselected
    exact congrArg ExceptT.run key

/-- Stamping the start tag of the first element that a selector takes. -/
theorem WellFormed.stamp_source_first
    (hhides : ∀ c ∈ f.chunks.takeWhile (!·.selectedBy sel), ∀ t ∈ f.tags,
      t.selectedBy sel = true → contains c.hidden t.source = false) :
    Scope.stamp names sel (some 1) f.source
      = .ok (f.retagFirst sel (OpenTag.stamped names sel)).source := by
  rw [Scope.stamp]
  by_cases hempty : names = []
  · subst hempty
    rw [if_pos List.isEmpty_nil, retagFirst_eq_self fun t _ => OpenTag.stamped_nil sel t]
    rfl
  · rw [if_neg (by simpa using hempty)]
    have key := hf.replaceMatches_retagFirst (OpenTag.name_stamped names sel) hhides
      fun t ht hselected => renewing_stamped (hf.tag t ht) hselected
    exact congrArg ExceptT.run key

end Flow

end Html
end Stencil
