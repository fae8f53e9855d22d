import Stencil.Proofs.Scope.Carry

set_option autoImplicit false

/-! # Confinement of scoped style sheets

When a page is compiled, the markers that are drawn for an import end up in the place of that
import, and nowhere else: each loose one on the one element around the expansion of the import,
each strict one on all elements of the expansion, those of nested imports included.
-/

namespace Stencil

open Text Html Vocabulary

/-- What it means that the markers of an import are confined to its place in a document. -/
structure Expansion.IsConfined (markers : Markers) (x : Expansion) (d : Document) : Prop where
  /-- The elements in the place of the import stand together, and no other element carries one
  of its markers. -/
  placed : ∃ pre post, d.elements = pre ++ x.placed.elements ++ post ∧ x.IsAbsentFrom (pre ++ post)
  /-- One element carries a loose marker: the one around the expansion of the import. -/
  loose : ∀ M ∈ x.loose,
    d.elements.filter (·.1.table.has (looseAttr M)) = [(enclosure x.loose, x.out)]
  /-- The elements of the expansion carry a strict marker, but for style sheets and the elements
  around fragments, which carry loose ones. -/
  strict : ∀ M ∈ x.strict, ∀ y ∈ x.placed.elements, (y.1.table.has (strictAttr M) = true
    ↔ y.1.name ≠ sheetName ∧ ∀ k, y.1.table.has (looseAttr (markers (k + 1))) = false)

/-- An import that stands in a document has its markers confined to its place. -/
theorem Expansion.StandsIn.isConfined {markers : Markers} {x : Expansion} {d : Document}
    (hmarkers : ∀ n, IsMarker (markers (n + 1)))
    (hx : ∀ m ∈ x.marks, ∃ n, m.marker = markers (n + 1)) (h : x.StandsIn markers d) :
    x.IsConfined markers d := by
  obtain ⟨pre, post, hd, habsent⟩ := h.placed
  have hmarker := isMarker_of_supplied hmarkers (x.supplied_loose hx)
  refine ⟨h.placed, fun M hM => ?_, fun M hM y hy => ?_⟩
  · have hnone : ∀ l : List (OpenTag × Document),
        (∀ y ∈ l, y.1.table.has (looseAttr M) = false) →
        l.filter (·.1.table.has (looseAttr M)) = [] := fun l hl =>
      List.filter_eq_nil_iff.2 fun y hy => by simp [hl y hy]
    rw [isAbsentFrom_append] at habsent
    have hpre := hnone pre fun y hy => (habsent.1 y hy M (loose_subset hM)).1
    have hpost := hnone post fun y hy => (habsent.2 y hy M (loose_subset hM)).1
    have hinside := hnone x.out.elements (h.loose M hM)
    have hloose : x.loose.isEmpty = false := by
      rw [List.isEmpty_eq_false_iff]
      exact List.ne_nil_of_mem hM
    have hcarried : (enclosure x.loose).table.has (looseAttr M) = true :=
      (enclosure_looseAttr hmarker M).2 hM
    rw [hd, Expansion.placed, Document.elements_enclosed, hloose]
    simp [List.filter_append, hpre, hpost, hinside, hcarried]
  · rw [Expansion.placed, Document.elements_enclosed, List.mem_append] at hy
    rcases hy with hy | hy
    · -- the element around the fragment carries no strict marker, but a loose one
      split at hy
      · simp at hy
      · rename_i hloose
        obtain rfl := List.mem_singleton.1 hy
        obtain ⟨N, hN⟩ := List.exists_mem_of_ne_nil x.loose (by simpa using hloose)
        obtain ⟨k, rfl⟩ := x.supplied_loose hx N hN
        rw [enclosure_strictAttr hmarker]
        refine ⟨fun hhas => absurd hhas (by decide), fun hnone => ?_⟩
        have hcarried := (enclosure_looseAttr hmarker (markers (k + 1))).2 hN
        rw [hnone.2 k] at hcarried
        exact absurd hcarried (by decide)
    · exact h.strict M hM y hy

namespace Compiler

variable {c : Compiler}

/-- Compiling a page gives its expansion, in which the markers of each import are confined to the
place of the import, or fails because imports are nested too deep. -/
theorem compile_confines (hstore : c.store.Holds (Document.IsStyled c.markers))
    (hmarkers : ∀ n, IsMarker (c.markers (n + 1)))
    (hinj : Function.Injective fun n => c.markers (n + 1)) {d : Document}
    (hd : d.IsMarkable c.markers) (s : Session) :
    (c.compile d.source).Ends s
      (fun t s' => ∃ (xs : List Expansion) (out : Document), ScopeExpands c.store [] d xs out ∧
        t = out.source ∧ out.WellFormed ∧ s.Draws c.markers (xs.flatMap Expansion.drawn) s' ∧
        ∀ x ∈ xs, x.IsConfined c.markers out)
      (fun e => e = .tooDeep c.maxDepth) := by
  have hscope : ∀ M ∈ Scope.empty.strict, ∃ n, M = c.markers (n + 1) := by simp [Scope.empty]
  have hwrapper : ∀ M ∈ (none : Option (List Text)).getD [], IsMarker M := by simp
  have key := scoping hstore hmarkers hinj (c.levelsAt 0) Slots.none hscope hwrapper
    List.nodup_nil hd s
  have hpage : ((d.marked Scope.empty.strict).wrapped none).source = d.source :=
    congrArg Document.source d.marked_nil
  rw [hpage] at key
  refine key.mono ?_ fun _ he => he
  rintro t s' ⟨⟨mid, xs, out, rfl, hmid, hclear, hexp, hdraws⟩, hpage⟩
  -- the page came without a wrapper, so nothing is left to take out
  have hout : mid.cleared = out := hclear
  have hsource : mid.source = out.source := by
    rw [← hout]
    exact Except.ok.inj ((hpage rfl).symm.trans hmid.clear_source)
  have hxs : ∀ x ∈ xs, ∀ m ∈ x.marks, ∃ n, m.marker = c.markers (n + 1) := fun x hx m hm =>
    hdraws.exists_of_mem (List.mem_flatMap.2 ⟨x, hx, List.mem_map_of_mem hm⟩)
  have hstands := hexp.standsIn hstore hmarkers hd.tags hscope hxs
    (by simpa [Scope.empty] using hdraws.nodup hinj)
  exact ⟨xs, out, hexp, hsource, hout ▸ hmid.cleared.wellFormed, hdraws,
    fun x hx => (hstands x hx).isConfined hmarkers (hxs x hx)⟩

/-- A fragment with a strict style sheet. -/
def note : Document :=
  .element [] ⟨sheetName, [⟨[' '], scopingAttr, "strict".text⟩], []⟩ (.text "b\x7btop:0\x7d".text)
    (.element [] (.bare "b".text) (.text "y".text) (.text []))

/-- A fragment with a loose style sheet that imports the note. -/
def panel : Document :=
  .element [] ⟨sheetName, [⟨[' '], scopingAttr, []⟩], []⟩ (.text "p\x7btop:0\x7d".text)
    (.element [] (.bare "p".text) (.text "x".text)
      (.element [] ⟨importTag, [⟨[' '], "src".text, "note".text⟩], []⟩ (.text []) (.text [])))

/-- A page that imports the panel and the note. -/
def panelPage : Document :=
  .element [] ⟨importTag, [⟨[' '], "src".text, "panel".text⟩], []⟩ (.text [])
    (.element [] (.bare "b".text) (.text "z".text)
      (.element [] ⟨importTag, [⟨[' '], "src".text, "note".text⟩], []⟩ (.text []) (.text [])))

/-- A compiler that knows the panel and the note. -/
def panelCompiler : Compiler where
  store := ⟨"_imports".text, "_imports".text, [("_imports/panel.html".text, panel.source),
    ("_imports/note.html".text, note.source)]⟩
  activeClass := []
  markdown := .ok
  maxDepth := 2
  markers := fun n => List.replicate n 'a'

/-- What the page becomes. -/
def panelText : Text :=
  ["<div data-sergey-scope-a=\"\">", "<style>[data-sergey-scope-a] ", "p \x7b\n  top:0;\n\x7d</style>",
    "<p>x</p>", "<style>b[data-sergey-strict-aa] ", "\x7b\n  top:0;\n\x7d</style>",
    "<b data-sergey-strict-aa=\"\">y</b>", "</div><b>z</b>", "<style>b[data-sergey-strict-aaa] ",
    "\x7b\n  top:0;\n\x7d</style>", "<b data-sergey-strict-aaa=\"\">y</b>"].flatMap String.text

/-- A start tag whose attributes begin in another way than those of markers carries none. -/
theorem isFreeOf_of_names {t : OpenTag} (h : ∀ n ∈ t.table.names, ¬ "data-sergey-s".text <+: n)
    (M : Text) : t.IsFreeOf M := by
  have hnone : ∀ name, "data-sergey-s".text <+: name → t.table.has name = false := by
    intro name hname
    rw [Bool.eq_false_iff, ne_eq, Table.has_iff]
    exact fun hmem => h name hmem hname
  exact ⟨hnone _ ⟨"cope-".text ++ M, rfl⟩, hnone _ ⟨"trict-".text ++ M, rfl⟩⟩

/-- A document that can be marked with any markers. -/
theorem isMarkable_of_names {d : Document} (h : d.WellFormed)
    (htags : ∀ x ∈ d.elements, x.1.table.has wrapperAttr = false ∧ x.1.name ≠ slotTag ∧
      x.1.attr? "as".text = none ∧ ∀ n ∈ x.1.table.names, ¬ "data-sergey-s".text <+: n)
    (himports : ∀ x ∈ d.elements, x.1.name = importTag → x.2 = .text []) (markers : Markers) :
    d.IsMarkable markers := by
  refine ⟨h, fun x hx => ?_, himports⟩
  obtain ⟨hun, hslot, hhtml, hnames⟩ := htags x hx
  refine ⟨hun, hslot, fun _ => ?_, fun n => ?_, fun n => ?_⟩
  · rw [hhtml]
    exact Option.some_ne_none _ |>.symm
  exacts [(isFreeOf_of_names hnames _).1, (isFreeOf_of_names hnames _).2]

theorem compile_confines_panel :
    panelCompiler.store.Holds (Document.IsStyled panelCompiler.markers) ∧
      (∀ n, IsMarker (panelCompiler.markers (n + 1))) ∧
      (Function.Injective fun n => panelCompiler.markers (n + 1)) ∧
      panelPage.IsMarkable panelCompiler.markers ∧
      ∃ (xs : List Expansion) (out : Document),
        ScopeExpands panelCompiler.store [] panelPage xs out ∧ out.source = panelText ∧
        ∀ x ∈ xs, x.IsConfined panelCompiler.markers out := by
  have hparse : ∀ d : Document, (∀ x ∈ d.elements, x.1.name = sheetName →
      (Css.Stylesheet.parse x.2.source).toOption.isSome = true) →
      ∀ x ∈ d.elements, x.1.name = sheetName →
        ∃ sheet, Css.Stylesheet.parse x.2.source = .ok sheet := by
    intro d h x hx hn
    have hsome := h x hx hn
    cases hrun : Css.Stylesheet.parse x.2.source with
    | ok sheet => exact ⟨sheet, rfl⟩
    | error fault =>
        rw [hrun] at hsome
        simp [Except.toOption] at hsome
  have hnote : note.IsStyled panelCompiler.markers :=
    ⟨isMarkable_of_names (by decide +kernel) (by decide +kernel) (by decide +kernel) _,
      hparse note (by decide +kernel)⟩
  have hpanel : panel.IsStyled panelCompiler.markers :=
    ⟨isMarkable_of_names (by decide +kernel) (by decide +kernel) (by decide +kernel) _,
      hparse panel (by decide +kernel)⟩
  have hstore : panelCompiler.store.Holds (Document.IsStyled panelCompiler.markers) := by
    intro entry hentry
    rcases List.mem_cons.1 hentry with rfl | hentry
    · exact ⟨panel, hpanel, rfl⟩
    · obtain rfl := List.mem_singleton.1 hentry
      exact ⟨note, hnote, rfl⟩
  have hmarkers : ∀ n, IsMarker (panelCompiler.markers (n + 1)) := by
    intro n c hc
    rw [List.eq_of_mem_replicate hc]
    decide
  have hinj : Function.Injective fun n => panelCompiler.markers (n + 1) := by
    intro m n h
    have hlength :
        (panelCompiler.markers (m + 1)).length = (panelCompiler.markers (n + 1)).length :=
      congrArg List.length h
    simpa [panelCompiler] using hlength
  have hpage : panelPage.IsMarkable panelCompiler.markers :=
    isMarkable_of_names (by decide +kernel) (by decide +kernel) (by decide +kernel) _
  refine ⟨hstore, hmarkers, hinj, hpage, ?_⟩
  have hends := compile_confines hstore hmarkers hinj hpage .start
  have hrun : (panelCompiler.compile panelPage.source).outcome .start
      = (.ok panelText, ⟨3, []⟩) := by
    decide +kernel
  obtain ⟨xs, out, hexp, hsource, -, -, hconfined⟩ := hends.of_ok hrun
  exact ⟨xs, out, hexp, hsource.symm, hconfined⟩

/-- A compiler that knows a fragment with a strict style sheet, in which a script holds the text of
the paragraph behind it. -/
def scriptedCompiler : Compiler where
  store := ⟨"_imports".text, "_imports".text, [("_imports/a.html".text,
    ["<style sergey-scoped=\"strict\">p\x7b\x7d</style>", "<script><p>x</p></script>",
      "<p>x</p>"].flatMap String.text)]⟩
  activeClass := []
  markdown := .ok
  maxDepth := 50
  markers := fun n => List.replicate n 'm'

/-- The text in the script takes the stamp of the paragraph, which carries no marker then. -/
theorem compile_stamps_script :
    ∃ t, (scriptedCompiler.compile "<sergey-import src=\"a\"></sergey-import>".text).outcome .start
        = (.ok t, ⟨1, []⟩) ∧
      t = ["<style>p[data-sergey-strict-m] \x7b\n\x7d</style>",
        "<script data-sergey-strict-m=\"\"><p data-sergey-strict-m=\"\">x</p></script>",
        "<p>x</p>"].flatMap String.text ∧
      (matchesIn t (.ofName "p".text) none).map
          (·.map (·.tag.attrs.has (strictAttr "m".text)))
        = .ok [false] := by
  refine ⟨_, ?_, rfl, ?_⟩
  · decide +kernel
  · decide +kernel

end Compiler
end Stencil
