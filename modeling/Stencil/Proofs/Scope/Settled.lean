import Stencil.Proofs.Scope.Account

set_option autoImplicit false

/-! # Scoping twice

A fragment that has been scoped is settled: it is one wrapper, none of its style sheets is scoped,
and its elements have the strict markers in force. Scoping a settled fragment finds nothing to do,
so it draws no marker and gives the fragment back.
-/

namespace Stencil

open Text Html Vocabulary

namespace Html.Document

/-- A document with nothing left to scope where some strict markers are in force. -/
structure IsSettled (strict : List Text) (d : Document) : Prop where
  wellFormed : d.WellFormed
  enclosed : d.isEnclosed = true
  unscoped : ∀ x ∈ d.elements, ¬ x.1.IsScopedSheet
  stamped : ∀ x ∈ d.elements, x.1.stamped (strict.map strictAttr) Scope.stampedElements = x.1

/-- What scoping makes of a document is settled. -/
theorem WellFormed.isSettled_scopedAs {inherited : Scope} {markers : Markers} {d : Document}
    (hinherited : ∀ M ∈ inherited.strict, IsMarker M) (hmarkers : ∀ n, IsMarker (markers (n + 1)))
    (hd : d.WellFormed) (n : Nat) :
    (d.scopedAs inherited markers n).IsSettled
      (inherited.addAll (d.marksFrom markers n)).strict where
  wellFormed := hd.scopedAs hinherited hmarkers n
  enclosed := isEnclosed_scopedAs hinherited hmarkers n
  unscoped := hd.not_isScopedSheet_scopedAs hinherited hmarkers n
  stamped := by
    intro x hx
    obtain ⟨y, -, e⟩ := exists_of_mem_retag hx
    rw [← Option.some.inj e]
    exact y.1.stamped_stamped (isAttrName_strictAttr (isMarker_of_mem_strict hinherited hmarkers n))

end Html.Document

namespace Scope

variable {markers : Markers} {d : Document}

/-- Scoping a settled fragment gives it back, and draws no marker. -/
theorem scopeStylesOf_of_isSettled {scope : Scope} (hscope : ∀ M ∈ scope.strict, IsMarker M)
    (hd : d.IsSettled scope.strict) (supply : Markers) :
    scopeStylesOf scope supply d.source = pure (d.source, scope) := by
  have huntouched : d.Untouched scopedSheets := by
    intro x hx
    rw [Bool.eq_false_iff, ne_eq, (hd.wellFormed.tag_of_mem x hx).isWritten.selectedBy_scopedSheets]
    exact hd.unscoped x hx
  have hsame : ∀ x ∈ d.elements,
      some (x.1.stamped (scope.strict.map strictAttr) stampedElements) = some x.1 :=
    fun x hx => congrArg some (hd.stamped x hx)
  have hstamp : stamp (scope.strict.map strictAttr) stampedElements none d.source
      = .ok d.source := by
    rw [hd.wellFormed.stamp_source (isAttrName_strictAttr hscope) rfl,
      Document.retag_congr (g := some) hsame, Document.retag_some]
  have hinforce : scope.append empty = scope := addAll_nil scope
  -- there are no new loose markers to stamp the root with
  have hroot : stamp (empty.loose.map looseAttr) (.ofAttr wrapperAttr) (some 1) d.source
      = .ok d.source := rfl
  rw [scopeStylesOf, hd.wellFormed.replaceMatches_of_untouched huntouched, Work.orFail_pure]
  simp only [StateT.run_pure, pure_bind, hd.wellFormed.encloses_eq, hd.enclosed, hinforce]
  rw [hroot, Work.lift_ok_bind, hstamp, Work.lift_ok_bind]

/-- Scoping what has been scoped, with the markers that are in force then, changes nothing. -/
theorem scopeStylesOf_idempotent {inherited : Scope} (hinherited : inherited.WellFormed)
    (hmarkers : ∀ n, IsMarker (markers (n + 1))) (hd : d.WellFormed) (s : Session) :
    (scopeStylesOf inherited markers d.source).Ends s
      (fun r _ => ∀ supply, scopeStylesOf r.2 supply r.1 = pure r) fun _ => False := by
  refine (ends_scopeStylesOf_scopedAs hinherited.strict hmarkers hd s).mono ?_ fun _ h => h
  rintro r s' ⟨rfl, -⟩ supply
  exact scopeStylesOf_of_isSettled
    (Document.isMarker_of_mem_strict hinherited.strict hmarkers s.drawn)
    (hd.isSettled_scopedAs hinherited.strict hmarkers s.drawn) supply

theorem scopeStylesOf_idempotent_mixedSheets :
    mixedScope.WellFormed ∧ (∀ n, IsMarker (List.replicate (n + 1) 'm')) ∧ mixedSheets.WellFormed ∧
      ∀ supply, scopeStylesOf mixedScopeInside supply mixedSheetsScoped
        = pure (mixedSheetsScoped, mixedScopeInside) := by
  have hd : mixedSheets.WellFormed := by decide +kernel
  refine ⟨wellFormed_mixedScope, fun n => isMarker_replicate (n + 1), hd, ?_⟩
  have hends := @scopeStylesOf_idempotent (List.replicate · 'm') _ _ wellFormed_mixedScope
    (fun n => isMarker_replicate (n + 1)) hd .start
  have key := hends.of_ok outcome_mixedSheets
  exact fun supply => key supply

/-- The text in a script takes the stamp of the paragraph behind it, which is left for a second
run to stamp. -/
theorem scopeStylesOf_scriptedParagraph :
    ∃ first second,
      (scopeStylesOf ⟨[], ["s1".text]⟩ (List.replicate · 'm')
          "<script><p>x</p></script><p>x</p>".text).outcome .start
        = (.ok (first, ⟨[], ["s1".text]⟩), .start) ∧
      (scopeStylesOf ⟨[], ["s1".text]⟩ (List.replicate · 'm') first).outcome .start
        = (.ok (second, ⟨[], ["s1".text]⟩), .start) ∧
      first = ["<div data-sergey-autotag=\"\"><script data-sergey-strict-s1=\"\">",
        "<p data-sergey-strict-s1=\"\">x</p></script><p>x</p></div>"].flatMap String.text ∧
      second ≠ first := by
  refine ⟨_, ["<div data-sergey-autotag=\"\"><script data-sergey-strict-s1=\"\">",
    "<p data-sergey-strict-s1=\"\">x</p></script>",
    "<p data-sergey-strict-s1=\"\">x</p></div>"].flatMap String.text, ?_, ?_, rfl, ?_⟩
  all_goals decide +kernel

end Scope
end Stencil
