import Stencil.Proofs.Document.Top
import Stencil.Proofs.Flow.Confine
import Stencil.Proofs.Flow.Stamp

set_option autoImplicit false

/-! # The account of the markers of a fragment

Each scoped style sheet of a fragment draws the next marker, in the order of the sheets. A sheet
that can be read is confined by its marker, which is recorded; one with a fault keeps its text, and
its marker is recorded nowhere. What comes of a fragment is known exactly (`Document.scopedAs`): it
is one wrapper, with the loose markers on its root and the strict ones on its elements.
-/

namespace Stencil

open Text Html Vocabulary

/-! ## Sheets and their markers -/

/-- A scoped style sheet with the marker that it draws. -/
structure DrawnSheet where
  tag : OpenTag
  css : Text
  marker : Text
  deriving DecidableEq, Repr

namespace DrawnSheet

/-- The rules of a sheet, confined by its marker. -/
def confined (x : DrawnSheet) : Except Css.Fault Text := x.tag.scopeKind.confineSheet x.marker x.css

/-- The text that a sheet holds in the end: one with a fault keeps its own. -/
def content (x : DrawnSheet) : Text :=
  match x.confined with
  | .ok css => css
  | .error _ => x.css

/-- What is recorded of a sheet: nothing when it has a fault. -/
def mark? (x : DrawnSheet) : Option ScopeMark :=
  match x.confined with
  | .ok _ => some ⟨x.tag.scopeKind, x.marker⟩
  | .error _ => none

/-- The line that reports a fault of a sheet. -/
def warning? (x : DrawnSheet) : Option Text :=
  match x.confined with
  | .ok _ => none
  | .error fault => some (Scope.warning fault)

theorem lt_not_mem_content {x : DrawnSheet} (hmarker : char '<' ∉ x.marker)
    (hcss : char '<' ∉ x.css) :
    char '<' ∉ x.content := by
  rw [content]
  split
  · rename_i h
    exact ScopeKind.lt_not_mem_confineSheet h hmarker hcss
  · exact hcss

theorem eq_of_mem_mark? {x : DrawnSheet} {m : ScopeMark} (h : m ∈ x.mark?) :
    m = ⟨x.tag.scopeKind, x.marker⟩ := by
  rw [mark?] at h
  split at h
  · exact (Option.some.inj h).symm
  · cases h

end DrawnSheet

namespace Html.Document

/-- The scoped style sheets of a document, in order. -/
def scopedSheets (d : Document) : List (OpenTag × Document) := d.elements.filter (·.1.IsScopedSheet)

/-- The scoped style sheets of a document with the markers that they draw when `n` markers have been
drawn before. -/
def drawnSheets (markers : Markers) (n : Nat) (d : Document) : List DrawnSheet :=
  (d.scopedSheets.zipIdx (n + 1)).map fun (x, i) => ⟨x.1, x.2.source, markers i⟩

/-- A document with its scoped style sheets confined. -/
def confinedFrom (markers : Markers) (n : Nat) : Document → Document
  | text s => text s
  | element before tag content rest =>
      if tag.IsScopedSheet then
        element before tag.unscoped
          (text (DrawnSheet.content ⟨tag, content.source, markers (n + 1)⟩))
          (rest.confinedFrom markers (n + 1))
      else
        element before tag (content.confinedFrom markers n)
          (rest.confinedFrom markers (n + content.scopedSheets.length))

/-- What is recorded of the scoped style sheets of a document. -/
def marksFrom (markers : Markers) (n : Nat) (d : Document) : List ScopeMark :=
  (d.drawnSheets markers n).filterMap DrawnSheet.mark?

/-- The lines that report the faults of the scoped style sheets of a document. -/
def warningsFrom (markers : Markers) (n : Nat) (d : Document) : List Text :=
  (d.drawnSheets markers n).filterMap DrawnSheet.warning?

section

variable {before : Text} {tag : OpenTag} {content rest : Document}

theorem scopedSheets_sheet (h : tag.IsScopedSheet) (css : Text) :
    (element before tag (text css) rest).scopedSheets = (tag, text css) :: rest.scopedSheets := by
  simp [scopedSheets, h]

theorem scopedSheets_element (h : ¬ tag.IsScopedSheet) :
    (element before tag content rest).scopedSheets = content.scopedSheets ++ rest.scopedSheets := by
  simp [scopedSheets, h]

theorem filterMap_drawnSheets_sheet {α : Type} (f : DrawnSheet → Option α) (h : tag.IsScopedSheet)
    (markers : Markers) (n : Nat) (css : Text) :
    ((element before tag (text css) rest).drawnSheets markers n).filterMap f
      = (f ⟨tag, css, markers (n + 1)⟩).toList
        ++ (rest.drawnSheets markers (n + 1)).filterMap f := by
  have hsheets : (element before tag (text css) rest).drawnSheets markers n
      = ⟨tag, css, markers (n + 1)⟩ :: rest.drawnSheets markers (n + 1) := by
    rw [drawnSheets, scopedSheets_sheet h]
    rfl
  rw [hsheets, List.filterMap_cons]
  split <;> simp [*]

theorem drawnSheets_element (h : ¬ tag.IsScopedSheet) (markers : Markers) (n : Nat) :
    (element before tag content rest).drawnSheets markers n
      = content.drawnSheets markers n
        ++ rest.drawnSheets markers (n + content.scopedSheets.length) := by
  rw [drawnSheets, scopedSheets_element h, List.zipIdx_append, List.map_append, Nat.add_right_comm]
  rfl

end

theorem exists_of_mem_drawnSheets {markers : Markers} {n : Nat} {d : Document} {x : DrawnSheet}
    (h : x ∈ d.drawnSheets markers n) : ∃ k, x.marker = markers (k + 1) := by
  obtain ⟨⟨y, i⟩, hy, rfl⟩ := List.mem_map.1 h
  have hi := (List.mem_zipIdx hy).1
  exact ⟨i - 1, by dsimp only; congr 1; omega⟩

/-- From a supply without repetition, each sheet draws a marker of its own. -/
theorem eq_of_mem_drawnSheets {markers : Markers} (hinj : Function.Injective fun n => markers (n + 1))
    {n : Nat} {d : Document} {x y : DrawnSheet} (hx : x ∈ d.drawnSheets markers n)
    (hy : y ∈ d.drawnSheets markers n) (h : x.marker = y.marker) : x = y := by
  obtain ⟨⟨a, i⟩, ha, rfl⟩ := List.mem_map.1 hx
  obtain ⟨⟨b, j⟩, hb, rfl⟩ := List.mem_map.1 hy
  obtain ⟨hi, -, ha⟩ := List.mem_zipIdx ha
  obtain ⟨hj, -, hb⟩ := List.mem_zipIdx hb
  obtain ⟨k, rfl⟩ := Nat.exists_eq_add_of_le' (Nat.le_of_add_left_le hi)
  obtain ⟨l, rfl⟩ := Nat.exists_eq_add_of_le' (Nat.le_of_add_left_le hj)
  obtain rfl : k = l := hinj h
  rw [ha, hb]

/-! ## A document with its sheets confined -/

variable {markers : Markers} (hmarkers : ∀ n, char '<' ∉ markers (n + 1)) {d : Document}
  (hd : d.WellFormed) (n : Nat)

include hd in
/-- What is confined is not scoped any more. -/
theorem WellFormed.not_isScopedSheet_confinedFrom :
    ∀ x ∈ (d.confinedFrom markers n).elements, ¬ x.1.IsScopedSheet := by
  induction d generalizing n with
  | text s => simp [confinedFrom]
  | element before tag content rest ihc ihr =>
      have hrest := fun k => ihr hd.rest k
      rw [confinedFrom]
      split
      · simp only [elements_element, elements_text, List.nil_append, List.mem_cons]
        rintro x (rfl | hx)
        · rintro ⟨-, hscoping⟩
          rw [unscoped_scopingAttr hd.tag] at hscoping
          cases hscoping
        · exact hrest _ x hx
      · rename_i hsheet
        simp only [elements_element, List.mem_cons, List.mem_append]
        rintro x (rfl | hx | hx)
        · exact hsheet
        · cases hd with
          | element _ _ _ hc _ => exact ihc hc n x hx
          | raw _ _ _ _ _ => simp [confinedFrom] at hx
        · exact hrest _ x hx

include hmarkers hd in
theorem WellFormed.confinedFrom : (d.confinedFrom markers n).WellFormed := by
  induction hd generalizing n with
  | text hs => exact .text hs
  | @element before tag content rest hb ht hn _ _ ihc ihr =>
      rw [Document.confinedFrom, if_neg fun h => hn h.mem_rawNames]
      exact .element hb ht hn (ihc n) (ihr _)
  | @raw before tag css rest hb ht hn hcss _ ihr =>
      rw [Document.confinedFrom]
      split
      · exact .raw hb ht.unscoped hn (DrawnSheet.lt_not_mem_content (hmarkers n) hcss) (ihr _)
      · exact .raw hb ht hn hcss (ihr _)

end Html.Document

/-! ## Confining them -/

namespace Scope

variable {markers : Markers} {E : Failure → Prop}

/-- A scoped style sheet draws one marker. -/
theorem ends_confineBlock_drawn {tag : OpenTag} (ht : tag.WellFormed) (css : Text) (p : Position)
    (scope : Scope) (s : Session) :
    Work.Ends ((confineBlock markers (tag.matchAt p (.text css))).run scope) s
      (fun r s' => r = (tag.unscoped.source ++ DrawnSheet.content ⟨tag, css, markers (s.drawn + 1)⟩
          ++ endTagText tag.name,
        scope.addAll (DrawnSheet.mark? ⟨tag, css, markers (s.drawn + 1)⟩).toList) ∧
        s' = ⟨s.drawn + 1,
          s.log ++ (DrawnSheet.warning? ⟨tag, css, markers (s.drawn + 1)⟩).toList⟩) E := by
  rw [run_confineBlock ht]
  refine Work.ends_draw_bind ?_
  simp only [DrawnSheet.content, DrawnSheet.mark?, DrawnSheet.warning?, DrawnSheet.confined]
  cases tag.scopeKind.confineSheet (markers (s.drawn + 1)) css with
  | ok css' =>
      refine Work.ends_pure ⟨?_, ?_⟩
      · rw [Option.toList_some, ← addAll_cons, addAll_nil]
      · rw [Option.toList_none, List.append_nil]
  | error fault =>
      refine Work.ends_write_bind (Work.ends_pure ⟨?_, rfl⟩)
      rw [Option.toList_none, addAll_nil]

/-- Without elements, no marker is drawn. -/
theorem ends_splice_drawn_text (u : Text) (scope : Scope) (s : Session) :
    Work.Ends (((Document.text u).splice scopedSheets fun t content =>
        confineBlock markers (t.matchAt .origin content)).run scope) s
      (fun r s' => r = (((Document.text u).confinedFrom markers s.drawn).source,
          scope.addAll ((Document.text u).marksFrom markers s.drawn)) ∧
        s' = ⟨s.drawn + (Document.text u).scopedSheets.length,
          s.log ++ (Document.text u).warningsFrom markers s.drawn⟩) E := by
  refine Work.ends_pure ⟨congrArg _ (addAll_nil scope).symm, ?_⟩
  show s = ⟨s.drawn, s.log ++ []⟩
  rw [List.append_nil]

/-- The scoped style sheets of a document draw one marker after the other. -/
theorem ends_splice_drawn {d : Document} (hd : d.WellFormed) (scope : Scope) (s : Session) :
    Work.Ends ((d.splice scopedSheets fun t content =>
        confineBlock markers (t.matchAt .origin content)).run scope) s
      (fun r s' => r = ((d.confinedFrom markers s.drawn).source,
          scope.addAll (d.marksFrom markers s.drawn)) ∧
        s' = ⟨s.drawn + d.scopedSheets.length, s.log ++ d.warningsFrom markers s.drawn⟩) E := by
  induction d generalizing scope s with
  | text u => exact ends_splice_drawn_text u scope s
  | element before tag content rest ihc ihr =>
      have hrest := ihr hd.rest
      rw [Document.splice]
      by_cases hsel : tag.IsScopedSheet
      · -- the style sheet draws the next marker, and has no elements inside
        rw [if_pos (hd.tag.isWritten.selectedBy_scopedSheets.2 hsel)]
        cases hd with
        | element _ _ hn _ _ => exact absurd hsel.mem_rawNames hn
        | @raw _ _ css _ hb ht hn hcss hr =>
            simp only [StateT.run_bind]
            refine (ends_confineBlock_drawn ht css .origin scope s).bind ?_
            rintro r s₁ ⟨rfl, rfl⟩
            refine (hrest _ _).bind ?_
            rintro r s₂ ⟨rfl, rfl⟩
            refine Work.ends_pure ⟨?_, ?_⟩
            · rw [addAll_append, Document.marksFrom, Document.marksFrom,
                Document.filterMap_drawnSheets_sheet _ hsel, Document.confinedFrom, if_pos hsel]
              simp [Document.source, OpenTag.unscoped]
            · rw [Document.warningsFrom, Document.warningsFrom,
                Document.filterMap_drawnSheets_sheet _ hsel, Document.scopedSheets_sheet hsel,
                List.length_cons, Nat.add_assoc, Nat.add_comm 1, List.append_assoc]
      · rw [if_neg (by rw [hd.tag.isWritten.selectedBy_scopedSheets]; exact hsel)]
        have hcontent : ∀ scope s, Work.Ends ((content.splice scopedSheets fun t content =>
            confineBlock markers (t.matchAt .origin content)).run scope) s
            (fun r s' => r = ((content.confinedFrom markers s.drawn).source,
                scope.addAll (content.marksFrom markers s.drawn)) ∧
              s' = ⟨s.drawn + content.scopedSheets.length,
                s.log ++ content.warningsFrom markers s.drawn⟩) E := by
          intro scope s
          cases hd with
          | element _ _ _ hc _ => exact ihc hc scope s
          | @raw _ _ css _ _ _ _ _ _ => exact ends_splice_drawn_text css scope s
        simp only [StateT.run_bind]
        refine (hcontent scope s).bind ?_
        rintro r s₁ ⟨rfl, rfl⟩
        refine (hrest _ _).bind ?_
        rintro r s₂ ⟨rfl, rfl⟩
        refine Work.ends_pure ⟨?_, ?_⟩
        · rw [addAll_append, Document.marksFrom, Document.marksFrom, Document.marksFrom,
            Document.drawnSheets_element hsel, List.filterMap_append, Document.confinedFrom,
            if_neg hsel]
          simp [Document.source]
        · rw [Document.warningsFrom, Document.warningsFrom, Document.warningsFrom,
            Document.drawnSheets_element hsel, List.filterMap_append,
            Document.scopedSheets_element hsel, List.length_append, Nat.add_assoc,
            List.append_assoc]

/-- Replacing the scoped style sheets of a document confines them, those with a fault excepted. -/
theorem ends_replaceMatches_drawn (hmarkers : ∀ n, char '<' ∉ markers (n + 1)) {d : Document}
    (hd : d.WellFormed) (scope : Scope) (s : Session) :
    Work.Ends ((Work.orFail
        (replaceMatches (confineBlock markers) .outer scopedSheets none d.source)).run scope) s
      (fun r s' => r = ((d.confinedFrom markers s.drawn).source,
          scope.addAll (d.marksFrom markers s.drawn)) ∧
        s' = ⟨s.drawn + d.scopedSheets.length, s.log ++ d.warningsFrom markers s.drawn⟩) E := by
  rw [replaceMatches_confineBlock hmarkers hd, Work.orFail_lift]
  exact ends_splice_drawn hd scope s

end Scope

/-! ## The wrapper of a fragment -/

namespace Html

namespace Document

theorem isEnclosed_inside_wrapperOpen (d : Document) : (d.inside wrapperOpen).isEnclosed = true := by
  rw [isEnclosed_iff]
  exact ⟨rfl, wrapperOpen, rfl, by decide⟩

/-- A document inside a wrapper, unless it is one. -/
def wrappedUp (d : Document) : Document := if d.isEnclosed then d else d.inside wrapperOpen

theorem isEnclosed_wrappedUp (d : Document) : d.wrappedUp.isEnclosed = true := by
  rw [wrappedUp]
  split
  exacts [‹_›, isEnclosed_inside_wrapperOpen d]

theorem WellFormed.wrappedUp {d : Document} (h : d.WellFormed) : d.wrappedUp.WellFormed := by
  rw [Document.wrappedUp]
  split
  exacts [h, h.inside wellFormed_wrapperOpen (by decide)]

/-- A wrapper with loose markers on its root, and strict ones on its elements. -/
def stampedWith (loose strict : List Text) (d : Document) : Document :=
  (d.retagRoot (OpenTag.stamped (loose.map looseAttr) (.ofAttr wrapperAttr))).retag fun t =>
    some (t.stamped (strict.map strictAttr) Scope.stampedElements)

/-- What scoping makes of a document when `n` markers have been drawn before. -/
def scopedAs (inherited : Scope) (markers : Markers) (n : Nat) (d : Document) : Document :=
  (d.confinedFrom markers n).wrappedUp.stampedWith (ScopeMark.ofKind .loose (d.marksFrom markers n))
    (inherited.strict ++ ScopeMark.ofKind .strict (d.marksFrom markers n))

end Document

/-- Stamping the first wrapper of a document that is one wrapper stamps its root. -/
theorem Document.WellFormed.stamp_root {d : Document} (hd : d.WellFormed) (hroot : d.isEnclosed = true)
    (names : List Text) : Scope.stamp names (.ofAttr wrapperAttr) (some 1) d.source
      = .ok (d.retagRoot (OpenTag.stamped names (.ofAttr wrapperAttr))).source := by
  obtain ⟨-, root, htop, hwrapper⟩ := isEnclosed_iff.1 hroot
  cases d with
  | text s => cases htop
  | element before tag content rest =>
      obtain ⟨rfl, -⟩ := List.cons.inj htop
      have hsel : tag.selectedBy (.ofAttr wrapperAttr) = true := by
        rwa [OpenTag.selectedBy_ofAttr (by decide)]
      rw [Scope.stamp]
      by_cases hempty : names = []
      · rw [hempty, if_pos List.isEmpty_nil, Document.retagRoot, OpenTag.stamped_nil]
        rfl
      · rw [if_neg (by simpa using hempty)]
        have hone : matchesIn (Document.element before tag content rest).source (.ofAttr wrapperAttr)
            (some 1) = .ok [tag.matchAt (Position.origin.advance before) content] := by
          rw [hd.matchesIn_source, selected_element, if_pos hsel]
          rfl
        have key : replaceMatches (fun m => (pure (appendAttributes m.start
              (names.filter (!m.tag.attrs.has ·))) : Id Text)) .start (.ofAttr wrapperAttr) (some 1)
              (Document.element before tag content rest).source
            = pure (before ++ (tag.stamped names (.ofAttr wrapperAttr)).source
              ++ (content.source ++ endTagText tag.name ++ rest.source)) := by
          have hpre : EveryTag (fun _ => False) before := everyTag_of_isRunning hd.before
          have hstart : (tag.matchAt (Position.origin.advance before) content).part .start
              = char '<' :: (tag.inside ++ char '>' :: []) := by
            simp [Match.part, OpenTag.matchAt, OpenTag.source]
          have hsource : (Document.element before tag content rest).source
              = before ++ (tag.matchAt (Position.origin.advance before) content).part .start
                ++ (content.source ++ endTagText tag.name ++ rest.source) := by
            simp [Document.source, Match.part, OpenTag.matchAt]
          have hstamped := @renewing_stamped names _ _ hd.tag.isWritten hsel
            (tag.matchAt (Position.origin.advance before) content) rfl rfl
          dsimp only at hstamped
          rw [replaceMatches_start_eq_patch hone, patch_cons, hsource,
            patchOne_of_everyTag hpre hd.tag.gt_not_mem (by simp) hstart, hstamped]
          rfl
        refine (congrArg ExceptT.run key).trans (congrArg Except.ok ?_)
        show _ = (Document.element _ _ _ _).source
        simp [Document.source, OpenTag.name_stamped]

/-! ## Stamping -/

namespace Document

variable {loose strict : List Text} (hloose : ∀ M ∈ loose, IsMarker M)
  (hstrict : ∀ M ∈ strict, IsMarker M) {d : Document}

include hloose hstrict

theorem WellFormed.stampedWith (hd : d.WellFormed) : (d.stampedWith loose strict).WellFormed := by
  have hroot : (d.retagRoot (OpenTag.stamped (loose.map looseAttr) (.ofAttr wrapperAttr))).WellFormed :=
    hd.retagRoot (OpenTag.name_stamped _ _) fun t ht => ht.stamped (isAttrName_looseAttr hloose)
  exact hroot.retag (hroot.settles_stamped (isAttrName_strictAttr hstrict))

theorem isEnclosed_stampedWith (h : d.isEnclosed = true) :
    (d.stampedWith loose strict).isEnclosed = true := by
  have hroot : (d.retagRoot (OpenTag.stamped (loose.map looseAttr) (.ofAttr wrapperAttr))).isEnclosed
      = true :=
    isEnclosed_retagRoot (OpenTag.name_stamped _ _) h fun t ht =>
      OpenTag.has_stamped_of_has (isAttrName_looseAttr hloose) ht
  exact isEnclosed_retag (OpenTag.name_stamped _ _) hroot fun t ht =>
    OpenTag.has_stamped_of_has (isAttrName_strictAttr hstrict) ht

/-- Stamping a wrapper with loose markers and then its elements with strict ones. -/
theorem stamp_stampedWith (hd : d.WellFormed) (h : d.isEnclosed = true) :
    ∃ marked, Scope.stamp (loose.map looseAttr) (.ofAttr wrapperAttr) (some 1) d.source
        = .ok marked ∧
      Scope.stamp (strict.map strictAttr) Scope.stampedElements none marked
        = .ok (d.stampedWith loose strict).source := by
  have hroot : (d.retagRoot (OpenTag.stamped (loose.map looseAttr) (.ofAttr wrapperAttr))).WellFormed :=
    hd.retagRoot (OpenTag.name_stamped _ _) fun t ht => ht.stamped (isAttrName_looseAttr hloose)
  exact ⟨_, hd.stamp_root h _, hroot.stamp_source (isAttrName_strictAttr hstrict) rfl⟩

end Document

theorem scopingAttr_ne_append {front : Text} (hlength : scopingAttr.length ≤ front.length)
    (h : ¬ scopingAttr <+: front) (M : Text) : scopingAttr ≠ front ++ M := by
  have key := append_ne_append hlength h [] M
  rwa [List.append_nil] at key

theorem scopingAttr_not_mem_loose (loose : List Text) : scopingAttr ∉ loose.map looseAttr := by
  intro h
  obtain ⟨M, -, e⟩ := List.mem_map.1 h
  exact scopingAttr_ne_append (by decide) (by decide) M e.symm

theorem scopingAttr_not_mem_strict (strict : List Text) : scopingAttr ∉ strict.map strictAttr := by
  intro h
  obtain ⟨M, -, e⟩ := List.mem_map.1 h
  exact scopingAttr_ne_append (by decide) (by decide) M e.symm

/-- Stamping scopes no style sheet. -/
theorem OpenTag.isScopedSheet_stamped {names : List Text} (hnames : ∀ n ∈ names, IsAttrName n)
    (h : scopingAttr ∉ names) {sel : Selector} {t : OpenTag} (ht : (t.stamped names sel).IsScopedSheet) :
    t.IsScopedSheet := by
  obtain ⟨hname, hscoping⟩ := ht
  rw [OpenTag.name_stamped] at hname
  rw [OpenTag.has_stamped_of_not_mem hnames t h] at hscoping
  exact ⟨hname, hscoping⟩

namespace Document

theorem exists_of_mem_retagRoot {f : OpenTag → OpenTag} {d : Document} {x : OpenTag × Document}
    (hx : x ∈ (d.retagRoot f).elements) : x ∈ d.elements ∨ ∃ y ∈ d.elements, x.1 = f y.1 := by
  cases d with
  | text s => exact Or.inl hx
  | element before tag content rest =>
      simp only [retagRoot, elements_element, List.mem_cons] at hx ⊢
      rcases hx with rfl | hx
      exacts [Or.inr ⟨_, Or.inl rfl, rfl⟩, Or.inl (Or.inr hx)]

theorem exists_of_mem_wrappedUp {d : Document} {x : OpenTag × Document} (hx : x ∈ d.wrappedUp.elements) :
    x.1 = wrapperOpen ∨ x ∈ d.elements := by
  rw [wrappedUp] at hx
  split at hx
  · exact Or.inr hx
  · simp only [inside, elements_element, elements_text, List.append_nil, List.mem_cons] at hx
    rcases hx with rfl | hx
    exacts [Or.inl rfl, Or.inr hx]

section

variable {inherited : Scope} (hinherited : ∀ M ∈ inherited.strict, IsMarker M) {markers : Markers}
  (hmarkers : ∀ n, IsMarker (markers (n + 1))) {d : Document} (hd : d.WellFormed) (n : Nat)

include hmarkers in
/-- All markers that are recorded come from the supply. -/
theorem isMarker_of_mem_marksFrom (kind : ScopeKind) :
    ∀ M ∈ ScopeMark.ofKind kind (d.marksFrom markers n), IsMarker M := by
  intro M hM
  obtain ⟨x, hx, hmark⟩ := List.mem_filterMap.1 (ScopeMark.mem_ofKind.1 hM)
  obtain ⟨k, hk⟩ := exists_of_mem_drawnSheets hx
  have hM : M = x.marker := congrArg ScopeMark.marker (DrawnSheet.eq_of_mem_mark? hmark)
  rw [hM, hk]
  exact hmarkers k

include hinherited hmarkers

theorem isMarker_of_mem_strict :
    ∀ M ∈ inherited.strict ++ ScopeMark.ofKind .strict (d.marksFrom markers n), IsMarker M := by
  intro M hM
  rcases List.mem_append.1 hM with hM | hM
  exacts [hinherited M hM, isMarker_of_mem_marksFrom hmarkers n .strict M hM]

include hd

theorem WellFormed.scopedAs : (d.scopedAs inherited markers n).WellFormed := by
  have hconfined := hd.confinedFrom (fun k => (hmarkers k).lt_not_mem) n
  exact hconfined.wrappedUp.stampedWith (isMarker_of_mem_marksFrom hmarkers n .loose)
    (isMarker_of_mem_strict hinherited hmarkers n)

/-- No style sheet is scoped in the end. -/
theorem WellFormed.not_isScopedSheet_scopedAs :
    ∀ x ∈ (d.scopedAs inherited markers n).elements, ¬ x.1.IsScopedSheet := by
  intro x hx hsheet
  obtain ⟨y, hy, e⟩ := exists_of_mem_retag hx
  rw [← Option.some.inj e] at hsheet
  have hsheet' := OpenTag.isScopedSheet_stamped
    (isAttrName_strictAttr (isMarker_of_mem_strict hinherited hmarkers n))
    (scopingAttr_not_mem_strict _) hsheet
  have hnone : ∀ z ∈ (d.confinedFrom markers n).wrappedUp.elements, ¬ z.1.IsScopedSheet := by
    intro z hz
    rcases exists_of_mem_wrappedUp hz with hz | hz
    · rw [hz]
      decide
    · exact hd.not_isScopedSheet_confinedFrom n z hz
  rcases exists_of_mem_retagRoot hy with hy | ⟨z, hz, e⟩
  · exact hnone y hy hsheet'
  · rw [e] at hsheet'
    exact hnone z hz (OpenTag.isScopedSheet_stamped
      (isAttrName_looseAttr (isMarker_of_mem_marksFrom hmarkers n .loose))
      (scopingAttr_not_mem_loose _) hsheet')

omit hd in
theorem isEnclosed_scopedAs : (d.scopedAs inherited markers n).isEnclosed = true :=
  isEnclosed_stampedWith (isMarker_of_mem_marksFrom hmarkers n .loose)
    (isMarker_of_mem_strict hinherited hmarkers n) (isEnclosed_wrappedUp _)

end

/-- The root of a wrapper that is stamped carries the loose markers. -/
theorem exists_root_stampedWith {loose strict : List Text} (hloose : ∀ M ∈ loose, IsMarker M)
    (hstrict : ∀ M ∈ strict, IsMarker M) {d : Document} (h : d.isEnclosed = true) :
    ∃ root, (d.stampedWith loose strict).topTags = [root] ∧
      ∀ M ∈ loose, root.table.has (looseAttr M) = true := by
  obtain ⟨-, root, htop, hwrapper⟩ := isEnclosed_iff.1 h
  cases d with
  | text s => cases htop
  | element before t content rest =>
      rw [topTags] at htop
      obtain ⟨rfl, hnone⟩ := List.cons.inj htop
      refine ⟨(t.stamped (loose.map looseAttr) (.ofAttr wrapperAttr)).stamped (strict.map strictAttr)
        Scope.stampedElements, ?_, fun M hM => ?_⟩
      · rw [stampedWith, topTags_retag (OpenTag.name_stamped _ _), retagRoot, topTags,
          OpenTag.name_stamped, hnone]
        rfl
      · refine OpenTag.has_stamped_of_has (isAttrName_strictAttr hstrict) ?_
        refine OpenTag.has_stamped (isAttrName_looseAttr hloose) ?_ (List.mem_map_of_mem hM)
        rwa [OpenTag.selectedBy_ofAttr (by decide)]

end Document
end Html

/-! ## The account of a fragment -/

namespace Scope

variable {inherited : Scope} {markers : Markers} {d : Document} {E : Failure → Prop}

/-- Scoping the source of a document ends well, and what comes of it is known exactly. -/
theorem ends_scopeStylesOf_scopedAs (hinherited : ∀ M ∈ inherited.strict, IsMarker M)
    (hmarkers : ∀ n, IsMarker (markers (n + 1))) (hd : d.WellFormed) (s : Session) :
    (scopeStylesOf inherited markers d.source).Ends s
      (fun r s' => r = ((d.scopedAs inherited markers s.drawn).source,
          inherited.addAll (d.marksFrom markers s.drawn)) ∧
        s' = ⟨s.drawn + d.scopedSheets.length, s.log ++ d.warningsFrom markers s.drawn⟩) E := by
  rw [scopeStylesOf]
  refine (ends_replaceMatches_drawn (fun n => (hmarkers n).lt_not_mem) hd empty s).bind ?_
  rintro r s' ⟨rfl, rfl⟩
  have hconfined := hd.confinedFrom (fun n => (hmarkers n).lt_not_mem) s.drawn
  obtain ⟨marked, hmarked, hstamped⟩ := Document.stamp_stampedWith
    (Document.isMarker_of_mem_marksFrom (d := d) hmarkers s.drawn .loose)
    (Document.isMarker_of_mem_strict (d := d) hinherited hmarkers s.drawn) hconfined.wrappedUp
    (Document.isEnclosed_wrappedUp (d.confinedFrom markers s.drawn))
  have hwrapped : (d.confinedFrom markers s.drawn).wrappedUp.source
      = if (d.confinedFrom markers s.drawn).isEnclosed then (d.confinedFrom markers s.drawn).source
        else Wrapper.around (d.confinedFrom markers s.drawn).source := by
    rw [Document.wrappedUp, ← source_inside_wrapperOpen]
    split <;> rfl
  have hloose : (empty.addAll (d.marksFrom markers s.drawn)).loose
      = ScopeMark.ofKind .loose (d.marksFrom markers s.drawn) := rfl
  have hstrict : (inherited.append (empty.addAll (d.marksFrom markers s.drawn))).strict
      = inherited.strict ++ ScopeMark.ofKind .strict (d.marksFrom markers s.drawn) := rfl
  rw [hwrapped] at hmarked
  dsimp only
  rw [hconfined.encloses_eq]
  cases henclosed : (d.confinedFrom markers s.drawn).isEnclosed <;>
    · simp only [henclosed, if_true, if_false, Bool.false_eq_true] at hmarked
      simp only [pure_bind]
      rw [hloose, hmarked, Work.lift_ok_bind, hstrict, hstamped, Work.lift_ok_bind]
      exact Work.ends_pure ⟨rfl, rfl⟩

/-- A marker that is drawn by a style sheet with a fault is not recorded. -/
theorem not_mem_of_mark?_eq_none (hinj : Function.Injective fun n => markers (n + 1)) {n : Nat}
    {x : DrawnSheet} (hx : x ∈ d.drawnSheets markers n) (hfault : x.mark? = none) (kind : ScopeKind) :
    x.marker ∉ ScopeMark.ofKind kind (d.marksFrom markers n) := by
  intro hmem
  obtain ⟨y, hy, hmark⟩ := List.mem_filterMap.1 (ScopeMark.mem_ofKind.1 hmem)
  have hmarker : x.marker = y.marker := congrArg ScopeMark.marker (DrawnSheet.eq_of_mem_mark? hmark)
  rw [Document.eq_of_mem_drawnSheets hinj hx hy hmarker, hmark] at hfault
  cases hfault

/-- What it means that the markers of a fragment are accounted for when it is scoped. -/
structure Accounts (inherited : Scope) (markers : Markers) (d : Document) (s : Session)
    (r : Text × Scope) (s' : Session) : Prop where
  /-- One marker is drawn for each scoped style sheet, and each fault is reported. -/
  session : s' = ⟨s.drawn + d.scopedSheets.length, s.log ++ d.warningsFrom markers s.drawn⟩
  /-- The markers of the style sheets that can be read are recorded, in order. -/
  scope : r.2 = inherited.addAll (d.marksFrom markers s.drawn)
  /-- The markers of the others are not. -/
  faulty : ∀ x ∈ d.drawnSheets markers s.drawn, x.mark? = none →
    x.marker ∉ r.2.loose ∧ x.marker ∉ r.2.strict
  /-- The fragment is the document with its style sheets confined, wrapped up and stamped. -/
  text : r.1 = (d.scopedAs inherited markers s.drawn).source
  /-- No style sheet of it is scoped. -/
  unscoped : ∀ x ∈ (d.scopedAs inherited markers s.drawn).elements, ¬ x.1.IsScopedSheet
  /-- It is one wrapper, -/
  enclosed : Wrapper.encloses r.1 = .ok true
  /-- and the root carries the loose markers. -/
  root : ∃ root, (d.scopedAs inherited markers s.drawn).topTags = [root] ∧
    ∀ M ∈ ScopeMark.ofKind .loose (d.marksFrom markers s.drawn), root.table.has (looseAttr M) = true

/-- Scoping the source of a document accounts for all markers. -/
theorem scopeStylesOf_accounts (hinherited : inherited.WellFormed)
    (hmarkers : ∀ n, IsMarker (markers (n + 1)))
    (hinj : Function.Injective fun n => markers (n + 1))
    (hfresh : ∀ n, markers (n + 1) ∉ inherited.loose ∧ markers (n + 1) ∉ inherited.strict)
    (hd : d.WellFormed) (s : Session) :
    (scopeStylesOf inherited markers d.source).Ends s (Accounts inherited markers d s) fun _ => False := by
  refine (ends_scopeStylesOf_scopedAs hinherited.strict hmarkers hd s).mono ?_ fun _ h => h
  rintro r s' ⟨rfl, rfl⟩
  have hscoped := hd.scopedAs hinherited.strict hmarkers s.drawn
  refine ⟨rfl, rfl, ?_, rfl, hd.not_isScopedSheet_scopedAs hinherited.strict hmarkers s.drawn, ?_, ?_⟩
  · intro x hx hfault
    obtain ⟨k, hk⟩ := Document.exists_of_mem_drawnSheets hx
    have hnew := not_mem_of_mark?_eq_none hinj hx hfault
    have hold := hfresh k
    rw [← hk] at hold
    exact ⟨fun h => (List.mem_append.1 h).elim hold.1 (hnew .loose),
      fun h => (List.mem_append.1 h).elim hold.2 (hnew .strict)⟩
  · rw [hscoped.encloses_eq, Document.isEnclosed_scopedAs hinherited.strict hmarkers]
  · exact Document.exists_root_stampedWith (Document.isMarker_of_mem_marksFrom hmarkers s.drawn .loose)
      (Document.isMarker_of_mem_strict hinherited.strict hmarkers s.drawn)
      (Document.isEnclosed_wrappedUp _)

/-- A fragment with loose and strict style sheets, two of them alike and one with a fault. -/
def mixedSheets : Document :=
  let sheet (value css : Text) (rest : Document) : Document :=
    .element [] ⟨sheetName, [⟨[' '], scopingAttr, value⟩], []⟩ (.text css) rest
  sheet [] "p\x7btop:0\x7d".text (sheet [] "p\x7btop:0".text
    (sheet "strict".text "p\x7btop:0\x7d".text (sheet [] "p\x7btop:0\x7d".text
      (.element [] (.bare "p".text) (.text "x".text) (.text [])))))

/-- What the fragment becomes. -/
def mixedSheetsScoped : Text :=
  ["<div data-sergey-autotag=\"\" data-sergey-scope-m=\"\" data-sergey-scope-mmmm=\"\">",
    "<style>[data-sergey-scope-m] p \x7b\n  top:0;\n\x7d</style>", "<style>p\x7btop:0</style>",
    "<style>p[data-sergey-strict-mmm] \x7b\n  top:0;\n\x7d</style>",
    "<style>[data-sergey-scope-mmmm] p \x7b\n  top:0;\n\x7d</style>",
    "<p data-sergey-strict-st=\"\" data-sergey-strict-mmm=\"\">x</p></div>"].flatMap String.text

/-- The markers that are in force around the fragment. -/
def mixedScope : Scope := ⟨["in".text], ["st".text]⟩

/-- The markers that are in force in the fragment. -/
def mixedScopeInside : Scope := ⟨["in".text, "m".text, "mmmm".text], ["st".text, "mmm".text]⟩

theorem wellFormed_mixedScope : mixedScope.WellFormed := by
  refine ⟨fun M hM => ?_, fun M hM => ?_⟩
  · rw [List.mem_singleton.1 hM]
    exact (by decide : ∀ c ∈ "in".text, (c.isLower || c.isDigit) = true)
  · rw [List.mem_singleton.1 hM]
    exact (by decide : ∀ c ∈ "st".text, (c.isLower || c.isDigit) = true)

theorem isMarker_replicate (n : Nat) : IsMarker (List.replicate n 'm') := by
  intro c hc
  rw [List.eq_of_mem_replicate hc]
  decide

theorem outcome_mixedSheets :
    (scopeStylesOf mixedScope (List.replicate · 'm') mixedSheets.source).outcome .start
      = (.ok (mixedSheetsScoped, mixedScopeInside), ⟨4, [warning (.unclosedBlock 1)]⟩) := by
  decide +kernel

theorem scopeStylesOf_accounts_mixedSheets :
    mixedScope.WellFormed ∧ (∀ n, IsMarker (List.replicate (n + 1) 'm')) ∧
      (Function.Injective fun n => List.replicate (n + 1) (char 'm')) ∧
      (∀ n, List.replicate (n + 1) (char 'm') ∉ mixedScope.loose ∧
        List.replicate (n + 1) (char 'm') ∉ mixedScope.strict) ∧
      mixedSheets.WellFormed ∧
      Accounts mixedScope (List.replicate · 'm') mixedSheets .start
        (mixedSheetsScoped, mixedScopeInside) ⟨4, [warning (.unclosedBlock 1)]⟩ := by
  have hinj : Function.Injective fun n => List.replicate (n + 1) (char 'm') := by
    intro m n h
    have hlength := congrArg List.length h
    simpa using hlength
  have hfresh : ∀ n, List.replicate (n + 1) (char 'm') ∉ mixedScope.loose ∧
      List.replicate (n + 1) (char 'm') ∉ mixedScope.strict := by
    intro n
    simp [mixedScope, List.replicate_succ]
  have hd : mixedSheets.WellFormed := by decide +kernel
  refine ⟨wellFormed_mixedScope, fun n => isMarker_replicate (n + 1), hinj, hfresh, hd, ?_⟩
  have hends := @scopeStylesOf_accounts mixedScope (List.replicate · 'm') _ wellFormed_mixedScope
    (fun n => isMarker_replicate (n + 1)) hinj hfresh hd .start
  exact hends.of_ok outcome_mixedSheets

/-- A paragraph with the attribute that scopes style sheets. -/
def scopedParagraph : Document :=
  (Document.text "x".text).inside ⟨"p".text, [⟨[' '], scopingAttr, []⟩], []⟩

/-- Elements that are no style sheets keep the attribute. -/
theorem scopeStylesOf_scopedParagraph :
    scopedParagraph.WellFormed ∧
      (scopeStylesOf .empty (List.replicate · 'm') scopedParagraph.source).outcome .start
        = (.ok ((scopedParagraph.inside wrapperOpen).source, .empty), .start) ∧
      ∃ x ∈ (scopedParagraph.inside wrapperOpen).elements, x.1.table.has scopingAttr = true := by
  decide +kernel

end Scope
end Stencil
