import Mathlib.Data.List.Nodup
import Stencil.Scope.Styles
import Stencil.Proofs.Css.Reading
import Stencil.Proofs.Template.Wrapper

set_option autoImplicit false

/-! # Confining the style sheets of a document

Every scoped style sheet of a fragment draws a marker, in the order of the sheets, and its
rules are confined by it. What comes of the fragment is a document again, with the same
elements up to those sheets.
-/

namespace Stencil

open Text Html Vocabulary

/-! ## Markers that are drawn -/

/-- A marker, with the kind of the style sheet that drew it. -/
structure ScopeMark where
  kind : ScopeKind
  marker : Text
  deriving DecidableEq, Repr

namespace ScopeMark

/-- The markers of one kind, in order. -/
def ofKind (kind : ScopeKind) (ms : List ScopeMark) : List Text :=
  (ms.filter (·.kind = kind)).map ScopeMark.marker

theorem mem_ofKind {kind : ScopeKind} {ms : List ScopeMark} {M : Text} :
    M ∈ ofKind kind ms ↔ ⟨kind, M⟩ ∈ ms := by
  rw [ofKind, List.mem_map]
  constructor
  · rintro ⟨⟨k, N⟩, hm, rfl⟩
    obtain ⟨hmem, hk⟩ := List.mem_filter.1 hm
    obtain rfl : k = kind := of_decide_eq_true hk
    exact hmem
  · intro h
    exact ⟨⟨kind, M⟩, List.mem_filter.2 ⟨h, decide_eq_true rfl⟩, rfl⟩

theorem ofKind_sublist (kind : ScopeKind) (ms : List ScopeMark) :
    (ofKind kind ms).Sublist (ms.map ScopeMark.marker) :=
  List.Sublist.map _ List.filter_sublist

theorem ofKind_cons (kind : ScopeKind) (m : ScopeMark) (ms : List ScopeMark) :
    ofKind kind (m :: ms) = (if m.kind = kind then [m.marker] else []) ++ ofKind kind ms := by
  rw [ofKind, List.filter_cons]
  split <;> simp_all [ofKind]

theorem ofKind_append (kind : ScopeKind) (ms ns : List ScopeMark) :
    ofKind kind (ms ++ ns) = ofKind kind ms ++ ofKind kind ns := by
  rw [ofKind, List.filter_append, List.map_append]
  rfl

end ScopeMark

/-- A scope with all markers of some sheets. -/
def Scope.addAll (scope : Scope) (ms : List ScopeMark) : Scope :=
  ⟨scope.loose ++ ScopeMark.ofKind .loose ms, scope.strict ++ ScopeMark.ofKind .strict ms⟩

namespace Scope

@[simp] theorem addAll_nil (scope : Scope) : scope.addAll [] = scope := by
  simp [addAll, ScopeMark.ofKind]

theorem addAll_cons (scope : Scope) (kind : ScopeKind) (M : Text) (ms : List ScopeMark) :
    (scope.add kind M).addAll ms = scope.addAll (⟨kind, M⟩ :: ms) := by
  cases kind <;> simp [addAll, add, ScopeMark.ofKind_cons]

theorem addAll_append (scope : Scope) (ms ns : List ScopeMark) :
    (scope.addAll ms).addAll ns = scope.addAll (ms ++ ns) := by
  simp [addAll, ScopeMark.ofKind_append]

end Scope

/-- What it means that work between two sessions draws just some markers, in order, and writes
nothing. -/
structure Session.Draws (markers : Markers) (s : Session) (drawn : List Text) (s' : Session) :
    Prop where
  session : s' = { s with drawn := s.drawn + drawn.length }
  drawn : drawn = (List.range' (s.drawn + 1) drawn.length).map markers

namespace Session.Draws

variable {markers : Markers} {s s₁ s₂ : Session} {ms ns : List Text}

theorem nil : Draws markers s [] s := ⟨rfl, rfl⟩

theorem single : Draws markers s [markers (s.drawn + 1)] { s with drawn := s.drawn + 1 } :=
  ⟨rfl, rfl⟩

theorem append (h₁ : Draws markers s ms s₁) (h₂ : Draws markers s₁ ns s₂) :
    Draws markers s (ms ++ ns) s₂ := by
  obtain ⟨rfl, hms⟩ := h₁
  obtain ⟨rfl, hns⟩ := h₂
  refine ⟨?_, ?_⟩
  · rw [List.length_append, Nat.add_assoc]
  · have hstart : s.drawn + ms.length + 1 = s.drawn + 1 + ms.length := by omega
    rw [List.length_append, ← List.range'_append_1, List.map_append, ← hms]
    dsimp only at hns
    rw [hstart] at hns
    rw [← hns]

/-- Markers that are drawn come from the supply. -/
theorem exists_of_mem (h : Draws markers s ms s₁) {M : Text} (hM : M ∈ ms) :
    ∃ n, M = markers (n + 1) := by
  rw [h.drawn, List.mem_map] at hM
  obtain ⟨i, hi, rfl⟩ := hM
  obtain ⟨k, -, rfl⟩ := List.mem_range'.1 hi
  exact ⟨s.drawn + k, by congr 1; omega⟩

/-- From a supply without repetition, no marker is drawn twice. -/
theorem nodup (h : Draws markers s ms s₁)
    (hinj : Function.Injective fun n => markers (n + 1)) : ms.Nodup := by
  rw [h.drawn]
  refine List.Nodup.map_on (fun i hi j hj e => ?_) List.nodup_range'
  obtain ⟨k, -, rfl⟩ := List.mem_range'.1 hi
  obtain ⟨l, -, rfl⟩ := List.mem_range'.1 hj
  have hkl := @hinj (s.drawn + 1 * k) (s.drawn + 1 * l)
    (by simpa [Nat.add_right_comm] using e)
  omega

end Session.Draws

/-! ## Scoped style sheets -/

namespace Html

/-- Whether an element is a style sheet with the scoping attribute. -/
def OpenTag.IsScopedSheet (t : OpenTag) : Prop :=
  t.name = sheetName ∧ t.table.has scopingAttr = true

instance : DecidablePred OpenTag.IsScopedSheet := fun t =>
  inferInstanceAs (Decidable (t.name = sheetName ∧ t.table.has scopingAttr = true))

/-- The kind that a scoped style sheet asks for. -/
def OpenTag.scopeKind (t : OpenTag) : ScopeKind :=
  if t.attr? scopingAttr = some "strict".text then .strict else .loose

/-- The start tag of a style sheet that is confined. -/
def OpenTag.unscoped (t : OpenTag) : OpenTag := .ofTable t.name (t.table.erase scopingAttr)

/-- A start tag that can be marked: it is neither a wrapper nor a slot, asks for no Markdown, and
has none of the attributes of the markers. -/
structure OpenTag.IsMarkable (markers : Markers) (t : OpenTag) : Prop where
  unwrapped : t.table.has wrapperAttr = false
  not_slot : t.name ≠ slotTag
  html : t.name = importTag → t.attr? "as".text ≠ some "markdown".text
  not_loose : ∀ n, t.table.has (looseAttr (markers (n + 1))) = false
  not_strict : ∀ n, t.table.has (strictAttr (markers (n + 1))) = false

/-- A document that can be marked; its imports have no content. -/
structure Document.IsMarkable (markers : Markers) (d : Document) : Prop where
  wellFormed : d.WellFormed
  tags : ∀ x ∈ d.elements, x.1.IsMarkable markers
  imports : ∀ x ∈ d.elements, x.1.name = importTag → x.2 = .text []

/-- A document that can be marked, with style sheets that can be read. -/
structure Document.IsStyled (markers : Markers) (d : Document) : Prop
    extends Document.IsMarkable markers d where
  sheets : ∀ x ∈ d.elements, x.1.name = sheetName →
    ∃ sheet, Css.Stylesheet.parse x.2.source = .ok sheet

theorem Document.isStyled_text_nil (markers : Markers) : (Document.text []).IsStyled markers :=
  ⟨⟨.text (by simp [IsRunning]), by simp, by simp⟩, by simp⟩

/-- A document with its scoped style sheets confined by some markers, one for each. -/
inductive Document.Confines : Document → List ScopeMark → Document → Prop where
  | text (s : Text) : Confines (.text s) [] (.text s)
  | element {before : Text} {tag : OpenTag} {content content' rest rest' : Document}
      {ms ns : List ScopeMark} : ¬ tag.IsScopedSheet → Confines content ms content' →
      Confines rest ns rest' →
      Confines (.element before tag content rest) (ms ++ ns) (.element before tag content' rest')
  | sheet {before : Text} {tag : OpenTag} {css css' M : Text} {rest rest' : Document}
      {ns : List ScopeMark} : tag.IsScopedSheet → tag.scopeKind.confineSheet M css = .ok css' →
      Confines rest ns rest' →
      Confines (.element before tag (.text css) rest) (⟨tag.scopeKind, M⟩ :: ns)
        (.element before tag.unscoped (.text css') rest')

theorem OpenTag.IsWritten.selectedBy_scopedSheets {t : OpenTag} (ht : t.IsWritten) :
    t.selectedBy Scope.scopedSheets = true ↔ t.IsScopedSheet := by
  have hname : sameName sheetName t.name = decide (t.name = sheetName) :=
    sameName_iff (by decide) (map_toLower_of_isElementName ht.name)
  have hattr : Selector.hasAttr (t.tagAt .origin) scopingAttr = t.table.has scopingAttr :=
    OpenTag.hasAttr_tagAt (by decide) t .origin
  have hsel : t.selectedBy Scope.scopedSheets
      = (sameName sheetName t.name && Selector.hasAttr (t.tagAt .origin) scopingAttr) := by
    simp [OpenTag.selectedBy, Scope.scopedSheets, Selector.selects, sheetName, OpenTag.tagAt]
  rw [hsel, hname, hattr, Bool.and_eq_true, decide_eq_true_iff]
  rfl

theorem OpenTag.IsScopedSheet.mem_rawNames {t : OpenTag} (h : t.IsScopedSheet) :
    t.name ∈ RawText.names := by
  rw [h.1]
  decide

/-- The content of a script or a style sheet is a text that opens no tag. -/
theorem Document.WellFormed.exists_css {d : Document} (hd : d.WellFormed) {x : OpenTag × Document}
    (hx : x ∈ d.elements) (hn : x.1.name ∈ RawText.names) :
    ∃ css, x.2 = .text css ∧ char '<' ∉ css := by
  induction hd with
  | text _ => simp at hx
  | element _ _ hne _ _ ihc ihr =>
      simp only [elements_element, List.mem_cons, List.mem_append] at hx
      rcases hx with rfl | hx | hx
      exacts [absurd hn hne, ihc hx, ihr hx]
  | @raw before tag css rest _ _ _ hcss _ ihr =>
      simp only [elements_element, elements_text, List.nil_append, List.mem_cons] at hx
      rcases hx with rfl | hx
      exacts [⟨css, rfl, hcss⟩, ihr hx]

theorem OpenTag.WellFormed.unscoped {t : OpenTag} (ht : t.WellFormed) : t.unscoped.WellFormed :=
  ht.ofTable (ht.isAttrTable.erase scopingAttr)

/-- Confining a style sheet takes its scoping attribute and no other one. -/
theorem has_unscoped {t : OpenTag} (ht : t.WellFormed) {name : Text}
    (h : t.unscoped.table.has name = true) : t.table.has name = true := by
  rw [OpenTag.unscoped, OpenTag.table_ofTable _ (ht.isAttrTable.erase scopingAttr), Table.has_iff,
    Table.names_erase] at h
  exact Table.has_iff.2 (List.mem_filter.1 h).1

theorem unscoped_scopingAttr {t : OpenTag} (ht : t.WellFormed) :
    t.unscoped.table.has scopingAttr = false := by
  rw [OpenTag.unscoped, OpenTag.table_ofTable _ (ht.isAttrTable.erase scopingAttr)]
  exact has_erase _ _

/-- A style sheet that is confined is not scoped any more. -/
theorem selectedBy_unscoped {t : OpenTag} (ht : t.WellFormed) :
    t.unscoped.selectedBy Scope.scopedSheets = false := by
  rw [Bool.eq_false_iff, ne_eq, ht.unscoped.isWritten.selectedBy_scopedSheets]
  rintro ⟨-, hattr⟩
  rw [unscoped_scopingAttr ht] at hattr
  exact absurd hattr (by decide)

namespace Document.Confines

variable {d e : Document} {ms : List ScopeMark}

/-- A document stays well formed when its style sheets are confined. -/
theorem wellFormed (h : Confines d ms e) (hd : d.WellFormed) (hms : ∀ m ∈ ms, char '<' ∉ m.marker) :
    e.WellFormed := by
  induction h with
  | text s => exact hd
  | element _ hcontent _ ihc ihr =>
      have hrest := ihr hd.rest fun m hm => hms m (List.mem_append_right _ hm)
      cases hd with
      | element hb ht hn hc hr =>
          exact .element hb ht hn (ihc hc fun m hm => hms m (List.mem_append_left _ hm)) hrest
      | raw hb ht hn hcss hr =>
          cases hcontent
          exact .raw hb ht hn hcss hrest
  | sheet hsheet hconfine _ ihr =>
      have hrest := ihr hd.rest fun m hm => hms m (List.mem_cons_of_mem _ hm)
      cases hd with
      | element hb ht hn hc hr => exact absurd hsheet.mem_rawNames hn
      | raw hb ht hn hcss hr =>
          exact .raw hb ht.unscoped hn
            (ScopeKind.lt_not_mem_confineSheet hconfine (hms _ List.mem_cons_self) hcss) hrest

/-- The elements are the same, up to the style sheets that are confined. -/
theorem exists_of_mem (h : Confines d ms e) (hd : d.WellFormed) {x : OpenTag × Document}
    (hx : x ∈ e.elements) : ∃ y ∈ d.elements, x.1.name = y.1.name ∧
      (∀ n, x.1.table.has n = true → y.1.table.has n = true) ∧
      (x.1.name ≠ sheetName → x.1 = y.1 ∧ (y.2 = .text [] → x.2 = .text [])) := by
  induction h with
  | text s => simp at hx
  | @element before tag content content' rest rest' _ _ _ hcontent _ ihc ihr =>
      simp only [elements_element, List.mem_cons, List.mem_append] at hx
      rcases hx with rfl | hx | hx
      · refine ⟨(tag, content), by simp, rfl, fun n hn => hn, fun _ => ⟨rfl, fun e => ?_⟩⟩
        obtain rfl : content = .text [] := e
        cases hcontent
        rfl
      · cases hd with
        | element _ _ _ hc _ =>
            obtain ⟨y, hy, h⟩ := ihc hc hx
            exact ⟨y, by simp [hy], h⟩
        | raw _ _ _ _ _ =>
            cases hcontent
            simp at hx
      · obtain ⟨y, hy, h⟩ := ihr hd.rest hx
        exact ⟨y, by simp [hy], h⟩
  | @sheet before tag css css' M rest rest' _ hsheet _ _ ihr =>
      simp only [elements_element, elements_text, List.nil_append, List.mem_cons] at hx
      rcases hx with rfl | hx
      · exact ⟨(tag, .text css), by simp, rfl, fun n hn => has_unscoped hd.tag hn,
          fun hn => absurd hsheet.1 hn⟩
      · obtain ⟨y, hy, h⟩ := ihr hd.rest hx
        exact ⟨y, by simp [hy], h⟩

/-- What comes of a document that can be marked can be marked. -/
theorem isMarkable {markers : Markers} (h : Confines d ms e) (hd : d.IsMarkable markers)
    (hms : ∀ m ∈ ms, char '<' ∉ m.marker) : e.IsMarkable markers where
  wellFormed := h.wellFormed hd.wellFormed hms
  tags := by
    intro x hx
    obtain ⟨y, hy, hname, hattrs, hsame⟩ := h.exists_of_mem hd.wellFormed hx
    have ht := hd.tags y hy
    have hfalse : ∀ {n : Text}, y.1.table.has n = false → x.1.table.has n = false := by
      intro n hn
      by_contra hx
      rw [hattrs n (by simpa using hx)] at hn
      exact absurd hn (by decide)
    refine ⟨hfalse ht.unwrapped, hname ▸ ht.not_slot, fun hn => ?_,
      fun n => hfalse (ht.not_loose n), fun n => hfalse (ht.not_strict n)⟩
    have hne : x.1.name ≠ sheetName := by
      rw [hn]
      decide
    rw [(hsame hne).1] at hn ⊢
    exact ht.html hn
  imports := by
    intro x hx hn
    obtain ⟨y, hy, hname, -, hsame⟩ := h.exists_of_mem hd.wellFormed hx
    have hne : x.1.name ≠ sheetName := by
      rw [hn]
      decide
    exact (hsame hne).2 (hd.imports y hy (hname ▸ hn))

end Document.Confines
end Html

/-! ## Confining them -/

namespace Scope

variable {markers : Markers} {E : Failure → Prop}

/-- Confining a style sheet draws a marker. A sheet that can be read is confined by it, and the
marker is recorded; one with a fault keeps its text, and the fault is reported. -/
theorem run_confineBlock {tag : OpenTag} (ht : tag.WellFormed) (p : Position) (css : Text)
    (scope : Scope) :
    (confineBlock markers (tag.matchAt p (.text css))).run scope
      = Work.draw markers >>= fun M =>
          match tag.scopeKind.confineSheet M css with
          | .ok css' => pure (tag.unscoped.source ++ css' ++ endTagText tag.name,
              scope.add tag.scopeKind M)
          | .error fault => Work.write (warning fault) >>= fun _ =>
              pure (tag.unscoped.source ++ css ++ endTagText tag.name, scope) := by
  have hstart : startTagText tag.name (tag.table.erase scopingAttr) = tag.unscoped.source :=
    startTagText_eq_source tag.name (ht.isAttrTable.erase scopingAttr)
  have hkind : kindOf (tag.matchAt p (.text css)) = tag.scopeKind := rfl
  have hinner : (tag.matchAt p (.text css)).inner = css := rfl
  rw [← hstart, confineBlock]
  simp only [StateT.run_bind]
  rw [hkind, hinner]
  show (Work.draw markers >>= fun M => pure (M, scope)) >>= _ = _
  rw [bind_assoc]
  refine bind_congr fun M => ?_
  rw [pure_bind]
  cases tag.scopeKind.confineSheet M css with
  | ok css' => rfl
  | error fault => rfl

/-- A scoped style sheet that can be read draws one marker and is confined by it. -/
theorem ends_confineBlock {tag : OpenTag} (ht : tag.WellFormed) {css : Text}
    (hcss : ∃ sheet, Css.Stylesheet.parse css = .ok sheet) (p : Position) (scope : Scope)
    (s : Session) :
    Work.Ends ((confineBlock markers (tag.matchAt p (.text css))).run scope) s
      (fun r s' => ∃ css', tag.scopeKind.confineSheet (markers (s.drawn + 1)) css = .ok css' ∧
        r = (tag.unscoped.source ++ css' ++ endTagText tag.name,
          scope.add tag.scopeKind (markers (s.drawn + 1))) ∧
        s' = { s with drawn := s.drawn + 1 }) E := by
  obtain ⟨sheet, hsheet⟩ := hcss
  have hconfine : ∀ M, tag.scopeKind.confineSheet M css
      = .ok (Css.Stylesheet.render (sheet.map (tag.scopeKind.confineItem M))) := by
    intro M
    rw [ScopeKind.confineSheet, hsheet]
    rfl
  rw [run_confineBlock ht]
  refine Work.ends_draw_bind ?_
  rw [hconfine]
  exact Work.ends_pure ⟨_, rfl, rfl, rfl⟩

/-- The scoped style sheets of a document are confined one after the other. -/
theorem ends_splice_confineBlock {d : Document} (hd : d.WellFormed)
    (hsheets : ∀ x ∈ d.elements, x.1.name = sheetName →
      ∃ sheet, Css.Stylesheet.parse x.2.source = .ok sheet) (scope : Scope) (s : Session) :
    Work.Ends ((d.splice scopedSheets fun t content =>
        confineBlock markers (t.matchAt .origin content)).run scope) s
      (fun r s' => ∃ ms e, d.Confines ms e ∧ r = (e.source, scope.addAll ms) ∧
        s.Draws markers (ms.map ScopeMark.marker) s') E := by
  induction d generalizing scope s with
  | text u => exact Work.ends_pure ⟨[], _, .text u, by rw [addAll_nil]; rfl, .nil⟩
  | element before tag content rest ihc ihr =>
      have hrest := ihr hd.rest fun x hx => hsheets x (by simp [hx])
      rw [Document.splice]
      by_cases hsel : tag.IsScopedSheet
      · -- the style sheet is confined, and has no elements inside
        rw [if_pos (hd.tag.isWritten.selectedBy_scopedSheets.2 hsel)]
        cases hd with
        | element _ _ hn _ _ => exact absurd hsel.mem_rawNames hn
        | raw hb ht hn hcss hr =>
            simp only [StateT.run_bind]
            refine (ends_confineBlock ht (hsheets _ List.mem_cons_self hsel.1) .origin scope s).bind ?_
            rintro r s₁ ⟨css', hconfine, rfl, rfl⟩
            refine (hrest _ _).bind ?_
            rintro r s₂ ⟨ms, e, hconfines, rfl, hdraws⟩
            refine Work.ends_pure ⟨_, _, .sheet hsel hconfine hconfines, ?_, ?_⟩
            · rw [addAll_cons]
              simp [Document.source, OpenTag.unscoped]
            · exact Session.Draws.single.append hdraws
      · rw [if_neg (by rw [hd.tag.isWritten.selectedBy_scopedSheets]; exact hsel)]
        have hcontent : ∀ scope s, Work.Ends ((content.splice scopedSheets fun t content =>
            confineBlock markers (t.matchAt .origin content)).run scope) s
            (fun r s' => ∃ ms e, content.Confines ms e ∧ r = (e.source, scope.addAll ms) ∧
              s.Draws markers (ms.map ScopeMark.marker) s') E := by
          intro scope s
          cases hd with
          | element _ _ _ hc _ => exact ihc hc (fun x hx => hsheets x (by simp [hx])) scope s
          | raw _ _ _ _ _ =>
              exact Work.ends_pure ⟨[], _, .text _, by rw [addAll_nil]; rfl, .nil⟩
        simp only [StateT.run_bind]
        refine (hcontent scope s).bind ?_
        rintro r s₁ ⟨ms, e, hconfines, rfl, hdraws⟩
        refine (hrest _ _).bind ?_
        rintro r s₂ ⟨ns, e', hconfines', rfl, hdraws'⟩
        refine Work.ends_pure ⟨_, _, .element hsel hconfines hconfines', ?_, ?_⟩
        · rw [addAll_append]
          simp [Document.source]
        · rw [List.map_append]
          exact hdraws.append hdraws'

/-- What comes of a scoped style sheet is passed over when those behind it are looked for. -/
theorem gives_confineBlock (hmarkers : ∀ n, char '<' ∉ markers (n + 1)) {tag : OpenTag}
    (ht : tag.WellFormed) {css : Text} (hcss : char '<' ∉ css) (p : Position) :
    Gives (Quiet scopedSheets) (confineBlock markers (tag.matchAt p (.text css))) := by
  have hquiet := selectedBy_unscoped ht
  have hopen : Quiet scopedSheets tag.unscoped.source := ht.unscoped.quiet_source hquiet
  have hclose : Quiet scopedSheets (endTagText tag.unscoped.name) :=
    ht.unscoped.quiet_endTagText hquiet
  have hall : ∀ {css' : Text}, char '<' ∉ css' →
      Quiet scopedSheets (tag.unscoped.source ++ css' ++ endTagText tag.name) := fun h =>
    (hopen.append (everyTag_of_not_mem h)).append hclose
  refine gives_of_run fun scope => Work.gives_of_ends fun s => ?_
  rw [run_confineBlock ht]
  refine Work.ends_draw_bind ?_
  cases hconfine : tag.scopeKind.confineSheet (markers (s.drawn + 1)) css with
  | ok css' =>
      exact Work.ends_pure
        (hall (ScopeKind.lt_not_mem_confineSheet hconfine (hmarkers s.drawn) hcss))
  | error fault => exact Work.ends_write_bind (Work.ends_pure (hall hcss))

/-- The scoped style sheets of a document are replaced one after the other, each where it stands. -/
theorem replaceMatches_confineBlock (hmarkers : ∀ n, char '<' ∉ markers (n + 1)) {d : Document}
    (hd : d.WellFormed) : replaceMatches (confineBlock markers) .outer scopedSheets none d.source
      = ExceptT.lift (d.splice scopedSheets
        fun t content => confineBlock markers (t.matchAt .origin content)) := by
  have hsheet : ∀ x ∈ d.elements, x.1.selectedBy scopedSheets = true →
      ∃ css, x.2 = .text css ∧ char '<' ∉ css := by
    intro x hx hsel
    exact hd.exists_css hx
      ((hd.tag_of_mem x hx).isWritten.selectedBy_scopedSheets.1 hsel).mem_rawNames
  refine hd.replaceMatches_splice ?_ (fun _ _ _ _ => rfl) ?_
  · intro x hx hsel
    obtain ⟨css, hcss, -⟩ := hsheet x hx hsel
    rw [hcss]
    simp [Document.Untouched]
  · intro x hx hsel
    obtain ⟨css, hcss, hlt⟩ := hsheet x hx hsel
    rw [hcss]
    exact gives_confineBlock hmarkers (hd.tag_of_mem x hx) hlt .origin

/-- Replacing the scoped style sheets of a document confines them. -/
theorem ends_confine {d : Document} (hd : d.IsStyled markers)
    (hmarkers : ∀ n, char '<' ∉ markers (n + 1)) (scope : Scope) (s : Session) :
    Work.Ends ((Work.orFail
        (replaceMatches (confineBlock markers) .outer scopedSheets none d.source)).run scope) s
      (fun r s' => ∃ ms e, d.Confines ms e ∧ r = (e.source, scope.addAll ms) ∧
        s.Draws markers (ms.map ScopeMark.marker) s') E := by
  rw [replaceMatches_confineBlock hmarkers hd.wellFormed, Work.orFail_lift]
  exact ends_splice_confineBlock hd.wellFormed hd.sheets scope s

end Scope
end Stencil
