import Stencil.Proofs.Flow.Confine
import Stencil.Proofs.Flow.Stamp

set_option autoImplicit false

/-! # How far strict markers reach

Scoping a fragment stamps every element in it with the strict markers in force, style sheets and
wrappers excepted. The fragment need not be a document: elements may be void, close themselves
or stay open, and comments, declarations, scripts and sheets with a fault may stand between them.
What is asked is that no comment, declaration or raw text holds a copy of a start tag. A stamp is set where the
text of a start tag stands first, so a copy in a comment takes the stamp of the element.
-/

namespace Stencil

open Text Html Vocabulary

namespace Html.Flow

/-- Whether no text that is hidden in a flow holds a copy of one of its start tags, as it is
written or as it is when its style sheet is confined. -/
def HidesNoTag (f : Flow) : Prop :=
  ∀ c ∈ f.chunks, ∀ t ∈ f.tags, contains c.hidden t.source = false ∧
    (t.IsScopedSheet → contains c.hidden t.unscoped.source = false)

instance : DecidablePred HidesNoTag := fun f =>
  inferInstanceAs (Decidable (∀ c ∈ f.chunks, ∀ t ∈ f.tags, contains c.hidden t.source = false ∧
    (t.IsScopedSheet → contains c.hidden t.unscoped.source = false)))

theorem HidesNoTag.hidesNo {f : Flow} (h : f.HidesNoTag) (sel : Selector) : f.HidesNo sel :=
  fun c hc t ht _ => (h c hc t ht).1

/-- What a style sheet holds when it is confined looks like no start tag. -/
theorem contains_sheet_eq_false {s : Text} (hs : char '<' ∉ s) {t : OpenTag} (ht : t.IsWritten) :
    contains (s ++ endTagText sheetName) t.source = false := by
  have hevery : EveryTag (· ≠ t.inside) (s ++ endTagText sheetName) :=
    (everyTag_of_not_mem hs).append (everyTag_endTagText (by decide) fun e =>
      inside_ne_cons ht (by decide) sheetName e.symm)
  have key := hevery.contains_eq_false ht.gt_not_mem (by simp) []
  simpa [OpenTag.source] using key

/-- Once the style sheets are confined, the hidden texts still hold no copy of a start tag. -/
theorem Confines.contains_hidden {f g : Flow} (h : f.Confines g) (hf : f.WellFormed)
    (hhides : f.HidesNoTag) :
    ∀ c ∈ g.chunks, ∀ u ∈ g.tags, contains c.hidden u.source = false := by
  intro c hc u hu
  have hwritten : u.IsWritten := (h.wellFormed hf).tag u hu
  rcases h.hidden_of_mem_chunks hc with ⟨d, hd, hsame⟩ | ⟨s, hs, hlt⟩
  · rw [hsame]
    rcases h.exists_of_mem_tags hu with hu | ⟨t, ht, hsheet, rfl⟩
    · exact (hhides d hd u hu).1
    · exact (hhides d hd t ht).2 hsheet
  · rw [hs]
    exact contains_sheet_eq_false hlt hwritten

/-- Stamping one element leaves the hidden texts as they are, and gives no other element another
start tag. -/
theorem hidesNo_retagFirst {f : Flow} {names : List Text} {sel others : Selector}
    (hhides : f.HidesNo others)
    (hsel : ∀ t ∈ f.tags, t.selectedBy sel = true →
      (t.stamped names sel).selectedBy others = false) :
    (f.retagFirst sel (OpenTag.stamped names sel)).HidesNo others := by
  intro c hc t ht htaken
  have hname := OpenTag.name_stamped names sel
  have hhidden : ∃ d ∈ f.chunks, c.hidden = d.hidden := by
    rcases exists_of_mem_retagFirst hc with hc | ⟨d, hd, -, rfl⟩
    exacts [⟨c, hc, rfl⟩, ⟨d, hd, Chunk.hidden_retag hname d⟩]
  have htag : t ∈ f.tags := by
    obtain ⟨e, he, hetag⟩ := mem_tags.1 ht
    rcases exists_of_mem_retagFirst he with he | ⟨d, hd, hdsel, rfl⟩
    · exact mem_tags.2 ⟨e, he, hetag⟩
    · -- the element that is stamped is not one of the others
      rw [Chunk.tag?_retag, Option.map_eq_some_iff] at hetag
      obtain ⟨u, hu, rfl⟩ := hetag
      rw [Chunk.selectedBy_of_tag? sel hu] at hdsel
      rw [hsel u (mem_tags.2 ⟨d, hd, hu⟩) hdsel] at htaken
      cases htaken
  obtain ⟨d, hd, hsame⟩ := hhidden
  rw [hsame]
  exact hhides d hd t htag htaken

end Html.Flow

namespace Scope

/-- Whether every element that is read off some markup carries strict markers, style sheets and
wrappers excepted. -/
def Reaches (strict : List Text) (markup : Text) : Prop :=
  ∃ nodes, Node.ofSource markup = .ok nodes ∧
    ∀ tag ∈ tagsOf nodes, tag.name ≠ sheetName → tag.attrs.has wrapperAttr = false →
      ∀ M ∈ strict, tag.attrs.has (strictAttr M) = true

instance (strict : List Text) (markup : Text) : Decidable (Reaches strict markup) :=
  match h : Node.ofSource markup with
  | .ok nodes =>
      decidable_of_iff (∀ tag ∈ tagsOf nodes, tag.name ≠ sheetName →
          tag.attrs.has wrapperAttr = false → ∀ M ∈ strict, tag.attrs.has (strictAttr M) = true)
        ⟨fun hall => ⟨nodes, h, hall⟩, fun ⟨found, hfound, hall⟩ => by
          obtain rfl : nodes = found := by
            rw [h] at hfound
            exact Except.ok.inj hfound
          exact hall⟩
  | .error e => isFalse fun ⟨nodes, hnodes, _⟩ => by
      rw [h] at hnodes
      cases hnodes

/-- The strict stamp reaches every element. -/
theorem reaches_stamp {f : Flow} (hf : f.WellFormed) (hhides : f.HidesNo stampedElements)
    {strict : List Text} (hstrict : ∀ M ∈ strict, IsMarker M) :
    ∃ stamped, stamp (strict.map strictAttr) stampedElements none f.source = .ok stamped ∧
      Reaches strict stamped := by
  have hnames := isAttrName_strictAttr hstrict
  refine ⟨_, hf.stamp_source hnames hhides, ?_⟩
  have hstamped : (f.retag (OpenTag.stamped (strict.map strictAttr) stampedElements)).WellFormed :=
    hf.retag (OpenTag.name_stamped _ _) (OpenTag.closesItself_stamped _ _)
      fun t ht => (hf.tag t ht).stamped hnames
  obtain ⟨nodes, hnodes, htags⟩ := hstamped.ofSource
  refine ⟨nodes, hnodes, fun tag htag hn hw M hM => ?_⟩
  rw [htags] at htag
  obtain ⟨u, hu, q, rfl⟩ := Flow.exists_of_mem_tagsFrom htag
  rw [Flow.tags_retag] at hu
  obtain ⟨t, ht, rfl⟩ := List.mem_map.1 hu
  have hname : t.name ≠ sheetName := by
    rwa [OpenTag.tagAt, OpenTag.name_stamped] at hn
  have hunwrapped : t.table.has wrapperAttr = false := by
    rwa [OpenTag.tagAt, OpenTag.has_stamped_of_not_mem hnames t (wrapperAttr_not_mem_strict strict)]
      at hw
  have hselected : t.selectedBy stampedElements = true := by
    rw [(hf.tag t ht).selectedBy_stampedElements, hunwrapped, decide_eq_true hname]
    rfl
  exact OpenTag.has_stamped hnames hselected (List.mem_map_of_mem hM)

/-- The strict stamp reaches every element when the first wrapper has its loose stamp. -/
theorem reaches_stamp_stamp {f : Flow} (hf : f.WellFormed) (hhides : f.HidesNo stampedElements)
    (hfront : ∀ c ∈ f.chunks.takeWhile (!·.selectedBy (.ofAttr wrapperAttr)), ∀ t ∈ f.tags,
      t.selectedBy (.ofAttr wrapperAttr) = true → contains c.hidden t.source = false)
    {loose strict : List Text} (hloose : ∀ M ∈ loose, IsMarker M)
    (hstrict : ∀ M ∈ strict, IsMarker M) :
    ∃ marked, stamp (loose.map looseAttr) (.ofAttr wrapperAttr) (some 1) f.source = .ok marked ∧
      ∃ stamped, stamp (strict.map strictAttr) stampedElements none marked = .ok stamped ∧
        Reaches strict stamped := by
  have hnames := isAttrName_looseAttr hloose
  refine ⟨_, hf.stamp_source_first hnames hfront, ?_⟩
  refine reaches_stamp (hf.retagFirst (OpenTag.name_stamped _ _) (OpenTag.closesItself_stamped _ _)
    fun t ht => (hf.tag t ht).stamped hnames) ?_ hstrict
  -- a wrapper takes no strict stamp, with its loose stamp or without
  refine Flow.hidesNo_retagFirst hhides fun t ht hsel => ?_
  rw [OpenTag.selectedBy_ofAttr (by decide)] at hsel
  rw [((hf.tag t ht).stamped hnames).selectedBy_stampedElements,
    OpenTag.has_stamped_of_not_mem hnames t (wrapperAttr_not_mem_loose loose), hsel, Bool.not_true,
    Bool.and_false]

/-- The stamps reach every element of a flow that is put into a wrapper, or stands in one. -/
theorem reaches_of_wrapped {g : Flow} (hg : g.WellFormed)
    (hhides : ∀ c ∈ g.chunks, ∀ t ∈ g.tags, contains c.hidden t.source = false) (b : Bool)
    {loose strict : List Text} (hloose : ∀ M ∈ loose, IsMarker M)
    (hstrict : ∀ M ∈ strict, IsMarker M) :
    ∃ marked, stamp (loose.map looseAttr) (.ofAttr wrapperAttr) (some 1)
        (if b then g.source else Wrapper.around g.source) = .ok marked ∧
      ∃ stamped, stamp (strict.map strictAttr) stampedElements none marked = .ok stamped ∧
        Reaches strict stamped := by
  cases b with
  | true =>
      refine reaches_stamp_stamp hg (fun c hc t ht _ => hhides c hc t ht) ?_ hloose hstrict
      exact fun c hc t ht _ => hhides c (List.takeWhile_subset _ hc) t ht
  | false =>
      have hwrapper : wrapperOpen.name ∉ RawText.names := by decide
      have hin : (g.inside wrapperOpen).WellFormed :=
        hg.inside wellFormed_wrapperOpen.isWritten hwrapper
      rw [if_neg (by decide), around_eq, ← Flow.source_inside]
      refine reaches_stamp_stamp hin ?_ ?_ hloose hstrict
      · intro c hc t ht hsel
        rw [Flow.tags_inside] at ht
        rw [Flow.chunks_inside] at hc
        have htag : t ∈ g.tags := by
          rcases List.mem_cons.1 ht with rfl | ht
          · have hwrapper : wrapperOpen.selectedBy stampedElements = false := by decide
            rw [hwrapper] at hsel
            cases hsel
          · exact ht
        have hempty : contains [] t.source = false :=
          contains_eq_false_of_not_mem (c := '<') (by simp [OpenTag.source]) (by simp)
        rcases List.mem_cons.1 hc with rfl | hc
        · exact hempty
        · rcases List.mem_append.1 hc with hc | hc
          · exact hhides c hc t htag
          · rw [List.mem_singleton.1 hc]
            exact hempty
      · -- the new wrapper is the first, with nothing in front
        have hfirst : (Chunk.opening wrapperOpen).selectedBy (.ofAttr wrapperAttr) = true := by decide
        rw [Flow.chunks_inside, List.takeWhile_cons_of_neg (by simp [hfirst])]
        simp

/-- Scoping a fragment that hides no copy of a start tag stamps every element in it with the strict
markers in force, style sheets and wrappers excepted. The markers that are inherited stay in
force. -/
theorem scopeStylesOf_reaches {f : Flow} (hf : f.WellFormed) (hhides : f.HidesNoTag)
    {inherited : Scope} (hinherited : inherited.WellFormed) {markers : Markers}
    (hmarkers : ∀ n, IsMarker (markers (n + 1))) (s : Session) :
    (scopeStylesOf inherited markers f.source).Ends s
      (fun r _ => inherited.strict <+: r.2.strict ∧ Reaches r.2.strict r.1) fun _ => False := by
  rw [scopeStylesOf]
  refine (ends_confine_flow hmarkers hf (hhides.hidesNo scopedSheets) wellFormed_empty s).bind ?_
  rintro ⟨body, own⟩ s' ⟨g, hconfines, rfl, hown⟩
  have hg : g.WellFormed := hconfines.wellFormed hf
  have hstrict : ∀ M ∈ (inherited.append own).strict, IsMarker M := by
    intro M hM
    rcases List.mem_append.1 hM with hM | hM
    exacts [hinherited.strict M hM, hown.strict M hM]
  obtain ⟨nodes, hnodes, -⟩ := hg.ofSource
  obtain ⟨b, hb⟩ := exists_encloses_of_nodes hnodes
  have hloose : ∀ M ∈ own.loose, IsMarker M := hown.loose
  obtain ⟨marked, hmarked, stamped, hstamped, hreaches⟩ :=
    reaches_of_wrapped hg (hconfines.contains_hidden hf hhides) b hloose hstrict
  have hinforce : inherited.strict <+: (inherited.append own).strict := List.prefix_append _ _
  dsimp only
  rw [hb]
  cases b <;>
    · simp only [if_true, if_false, Bool.false_eq_true] at hmarked
      simp only [pure_bind]
      rw [hmarked, Work.lift_ok_bind, hstamped, Work.lift_ok_bind]
      exact Work.ends_pure ⟨hinforce, hreaches⟩

/-- A page with a strict style sheet, in which elements are void, close themselves or stay open,
and in which a comment and a script look like markup. -/
def looseEnds : Flow :=
  .chunk [] (.declaration "!DOCTYPE html".text) <|
  .chunk "Intro & ".text (.opening (.bare "br".text)) <|
  .chunk [] (.comment " <b> ".text) <|
  .chunk [] (.raw (.bare "script".text) "if (a<b) go()".text) <|
  .chunk [] (.opening (.bare "em".text)) <|
  .chunk "text".text (.closing "b".text) <|
  .chunk [] (.opening ⟨"img".text, [⟨[' '], "alt".text, "x".text⟩], [' ', '/']⟩) <|
  .chunk [] (.raw ⟨sheetName, [⟨[' '], scopingAttr, "strict".text⟩], []⟩ "p { color: red }".text) <|
  .text " more".text

theorem scopeStylesOf_reaches_looseEnds :
    looseEnds.WellFormed ∧ looseEnds.HidesNoTag ∧
      (scopeStylesOf ⟨[], ["p1".text]⟩ (List.replicate · 'm') looseEnds.source).Ends .start
        (fun r _ => ["p1".text] <+: r.2.strict ∧ Reaches r.2.strict r.1) fun _ => False := by
  have hflow : looseEnds.WellFormed := by decide +kernel
  have hhides : looseEnds.HidesNoTag := by decide +kernel
  have hinherited : Scope.WellFormed ⟨[], ["p1".text]⟩ := ⟨by simp, by simp [IsMarker]⟩
  have hmarkers : ∀ n, IsMarker (List.replicate (n + 1) 'm') := by
    intro n c hc
    rw [List.eq_of_mem_replicate hc]
    decide
  exact ⟨hflow, hhides, scopeStylesOf_reaches hflow hhides hinherited hmarkers .start⟩

/-- A start tag in a comment takes the stamp of an element behind it that is written alike. -/
theorem not_reaches_behind_comment :
    (scopeStylesOf ⟨[], ["p1".text]⟩ (fun _ => []) "<!--<p>--><p>x</p>".text).outcome .start
        = (.ok
          ("<div data-sergey-autotag=\"\"><!--<p data-sergey-strict-p1=\"\">--><p>x</p></div>".text,
          ⟨[], ["p1".text]⟩), .start) ∧
      ¬ Reaches ["p1".text]
        "<div data-sergey-autotag=\"\"><!--<p data-sergey-strict-p1=\"\">--><p>x</p></div>".text := by
  decide +kernel

end Scope
end Stencil
