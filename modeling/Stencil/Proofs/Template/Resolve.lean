import Stencil.Proofs.Template.Compile

set_option autoImplicit false

/-! # Tags that hold each other

Imports, slots and templates may stand in each other in any way, and may be written any number
of times. Compiling leaves no import and no slot of a page, as long as the turns clear every
document that it gets to. Where they do not, a tag may survive.
-/

namespace Stencil

open Text Html Vocabulary

namespace Html

/-! ## Markup in general -/

/-- A start tag of markup without style sheets and Markdown. -/
structure OpenTag.IsMarkup (t : OpenTag) : Prop where
  not_raw : t.name ∉ RawText.names
  html : t.name = importTag → t.attr? "as".text ≠ some "markdown".text

instance : DecidablePred OpenTag.IsMarkup := fun t =>
  decidable_of_iff (RawText.names.elem t.name = false ∧
      (t.name = importTag → t.attr? "as".text ≠ some "markdown".text))
    ⟨fun ⟨h₁, h₂⟩ => ⟨by simpa using h₁, h₂⟩, fun ⟨h₁, h₂⟩ => ⟨by simpa using h₁, h₂⟩⟩

namespace Document

/-- A document without style sheets and Markdown. -/
structure IsMarkup (d : Document) : Prop where
  wellFormed : d.WellFormed
  tags : ∀ x ∈ d.elements, x.1.IsMarkup

instance : DecidablePred IsMarkup := fun d =>
  decidable_of_iff (d.WellFormed ∧ ∀ x ∈ d.elements, x.1.IsMarkup)
    ⟨fun ⟨h₁, h₂⟩ => ⟨h₁, h₂⟩, fun ⟨h₁, h₂⟩ => ⟨h₁, h₂⟩⟩

/-- Markup without slots. -/
structure IsSlotless (d : Document) : Prop extends IsMarkup d where
  slotless : d.Lacks slotTag

theorem isSlotless_text_nil : (text []).IsSlotless :=
  ⟨⟨.text (by simp [IsRunning]), by simp⟩, by simp [Lacks]⟩

theorem IsMarkup.plain {d : Document} (h : d.IsMarkup) : d.Plain :=
  ⟨h.wellFormed, fun x hx => (h.tags x hx).not_raw⟩

theorem IsSlotless.of_tags {d : Document} (h : d.WellFormed)
    (htags : ∀ x ∈ d.elements, ∃ e : Document, e.IsSlotless ∧ ∃ y ∈ e.elements, y.1 = x.1) :
    d.IsSlotless := by
  refine ⟨⟨h, fun x hx => ?_⟩, fun x hx => ?_⟩
  · obtain ⟨e, he, y, hy, hxy⟩ := htags x hx
    exact hxy ▸ he.tags y hy
  · obtain ⟨e, he, y, hy, hxy⟩ := htags x hx
    exact hxy ▸ he.slotless y hy

theorem IsSlotless.content {d : Document} (h : d.IsSlotless) {x : OpenTag × Document}
    (hx : x ∈ d.elements) : x.2.IsSlotless :=
  .of_tags (h.plain.content hx).wellFormed fun y hy =>
    ⟨d, h, y, mem_elements_of_mem_content hx hy, rfl⟩

theorem IsSlotless.trim {d : Document} (h : d.IsSlotless) : d.trim.IsSlotless :=
  .of_tags h.wellFormed.trim fun x hx => ⟨d, h, x, by simpa using hx, rfl⟩

/-- Filling markup with markup that has no slots leaves none. -/
theorem IsMarkup.fill {supply : Text → Option Document}
    (hsupply : ∀ n e, supply n = some e → e.IsSlotless) {d : Document} (h : d.IsMarkup) :
    (d.fill supply).IsSlotless := by
  refine ⟨⟨?_, fun x hx => ?_⟩, fun x hx => ?_⟩
  · exact WellFormed.fill (fun n e he => (hsupply n e he).wellFormed) h.wellFormed h.plain.rawless
  · rcases mem_elements_fill hx with ⟨-, c, hc, -⟩ | ⟨n, e, hs, he⟩
    exacts [h.tags (x.1, c) hc, (hsupply n e hs).tags x he]
  · rcases mem_elements_fill hx with ⟨hn, -⟩ | ⟨n, e, hs, he⟩
    exacts [hn, (hsupply n e hs).slotless x he]

end Document

/-! ## The slots of any content -/

/-- The sources of markup without slots. -/
def IsSlotlessSource (t : Text) : Prop := ∃ d : Document, d.IsSlotless ∧ d.source = t

theorem IsSlotlessSource.trim {t : Text} (h : IsSlotlessSource t) : IsSlotlessSource (trim t) := by
  obtain ⟨d, hd, rfl⟩ := h
  exact ⟨d.trim, hd.trim, d.source_trim⟩

/-- Taking an element out of markup leaves markup, wherever its text stands. -/
theorem IsSlotlessSource.erase {t : Text} (h : IsSlotlessSource t) {x : OpenTag × Document}
    (ht : x.1.WellFormed) (hx : x.2.WellFormed) :
    IsSlotlessSource (replaceFirst (elementSource x) [] t) := by
  obtain ⟨d, hd, rfl⟩ := h
  cases hcut : cut? (elementSource x) d.source with
  | none =>
      rw [replaceFirst, hcut]
      exact ⟨d, hd, rfl⟩
  | some found =>
      obtain ⟨a, b⟩ := found
      have hat := hd.wellFormed.hasAt hd.plain.rawless ht hx (eq_of_cut? hcut)
      obtain ⟨d', hd', hsource, htags⟩ := hat.2 _ Document.isSlotless_text_nil.wellFormed
      refine ⟨d', .of_tags hd' fun y hy => ?_, by rw [hsource, replaceFirst_of_cut? _ hcut]; rfl⟩
      rcases htags y hy with ⟨z, hz, e⟩ | ⟨z, hz, e⟩
      exacts [⟨d, hd, z, hz, e⟩, ⟨_, Document.isSlotless_text_nil, z, hz, e⟩]

end Html

namespace Slots

/-- Whether all texts of the slots are sources of markup without slots. -/
def AreSlotless (slots : Slots) : Prop := ∀ entry ∈ slots, IsSlotlessSource entry.2

theorem AreSlotless.get? {slots : Slots} (h : slots.AreSlotless) {n t : Text}
    (ht : Table.get? slots n = some t) : IsSlotlessSource t := by
  obtain ⟨l, r, rfl, -⟩ := List.lookup_eq_some_iff.1 ht
  exact h (n, t) (by simp)

theorem AreSlotless.getD {slots : Slots} (h : slots.AreSlotless) (n : Text) :
    IsSlotlessSource ((Table.get? slots n).getD []) := by
  cases ht : Table.get? slots n with
  | none => exact ⟨_, Document.isSlotless_text_nil, rfl⟩
  | some t => exact h.get? ht

theorem AreSlotless.set {slots : Slots} (h : slots.AreSlotless) (n : Text) {t : Text}
    (ht : IsSlotlessSource t) : AreSlotless (Table.set n t slots) := by
  intro entry hentry
  rcases Table.mem_of_mem_set hentry with rfl | hentry
  exacts [ht, h entry hentry]

theorem AreSlotless.addTemplate {slots : Slots} (h : slots.AreSlotless) {x : OpenTag × Document}
    (ht : x.1.WellFormed) (hx : x.2.IsSlotless) (p : Position) :
    AreSlotless (slots.addTemplate (x.1.matchAt p x.2)) := by
  have hinner : IsSlotlessSource (trim x.2.source) := IsSlotlessSource.trim ⟨x.2, hx, rfl⟩
  rw [Slots.addTemplate]
  refine AreSlotless.set ?_ _ hinner
  split
  · exact h
  · exact h.set _ ((h.getD defaultSlot).erase ht hx.wellFormed)

/-- The content of an import fills slots with markup without slots. -/
theorem areSlotless_ofContent {c : Document} (hc : c.IsSlotless) :
    ∃ slots, ofContent c.source = .ok slots ∧ AreSlotless slots := by
  have hmatches : ∀ m ∈ c.selected (.ofName templateTag) .origin,
      ∃ x ∈ c.elements, ∃ p, m = x.1.matchAt p x.2 := fun m hm =>
    Document.exists_of_mem_matchesFrom (List.mem_filter.1 hm).1
  have hfold : ∀ (ms : List Match) (slots : Slots), slots.AreSlotless →
      (∀ m ∈ ms, ∃ x ∈ c.elements, ∃ p, m = x.1.matchAt p x.2) →
      AreSlotless (ms.foldl Slots.addTemplate slots) := by
    intro ms
    induction ms with
    | nil => exact fun _ h _ => h
    | cons m ms ih =>
        intro slots h hms
        obtain ⟨x, hx, p, rfl⟩ := hms m (by simp)
        exact ih _ (h.addTemplate (hc.wellFormed.tag_of_mem x hx) (hc.content hx) p)
          fun m hm => hms m (by simp [hm])
  have hfirst : AreSlotless [(defaultSlot, trim c.source)] := by
    intro entry hentry
    obtain rfl := List.mem_singleton.1 hentry
    exact IsSlotlessSource.trim ⟨c, hc, rfl⟩
  have hall := hfold _ _ hfirst hmatches
  exact ⟨_, ofContent_source hc.wellFormed, hall.set _ (hall.getD defaultSlot).trim⟩

/-- So there are documents that the content supplies. -/
theorem AreSlotless.exists_supply {slots : Slots} (h : slots.AreSlotless) :
    ∃ supply : Text → Option Document, slots.Holds supply ∧
      ∀ n e, supply n = some e → e.IsSlotless := by
  have hone : ∀ n, ∃ e : Option Document, Table.filled? slots n = e.map Document.source ∧
      ∀ d, e = some d → d.IsSlotless := by
    intro n
    cases ht : Table.filled? slots n with
    | none => exact ⟨Option.none, rfl, by simp⟩
    | some t =>
        obtain ⟨d, hd, rfl⟩ := h.get? (Option.eq_some_of_filter_eq_some ht)
        exact ⟨some d, rfl, by rintro _ ⟨⟩; exact hd⟩
  choose supply hsupply using hone
  exact ⟨supply, fun n => (hsupply n).1, fun n => (hsupply n).2⟩

end Slots

/-! ## What a page gets to -/

/-- The documents that compiling a page gets to, each with what is supplied for its slots: the
page itself, and the fragments of the imports that stand in no other one. -/
inductive Reaches (store : Store) (page : Document) : (Text → Option Document) → Document → Prop where
  | page : Reaches store page (fun _ => none) page
  | fragment {supply supply' : Text → Option Document} {d body : Document} {x : OpenTag × Document}
      {slots : Slots} :
      Reaches store page supply d →
      x ∈ (d.fill supply).exposed (.ofName importTag) (fun _ => false) →
      body.WellFormed → body.source = fragmentText store x.1 →
      Slots.ofContent x.2.source = .ok slots → slots.Holds supply' →
      (∀ n e, supply' n = some e → e.WellFormed) → Reaches store page supply' body

/-- Whether the turns of its slots clear a document, and those of its imports then clear the
filled one. -/
structure Html.Document.TagsClear (d : Document) (supply : Text → Option Document) : Prop where
  slots : d.Clears (.ofName slotTag) (keepsContent supply)
  imports : (d.fill supply).Clears (.ofName importTag) fun _ => false

/-- A page gets to itself, and to what the store holds. -/
theorem Reaches.eq_page_or {store : Store} {p : Document → Prop} (hstore : store.Holds p)
    (hp : ∀ d, p d → d.WellFormed) (hnil : p (.text [])) {page d : Document}
    {supply : Text → Option Document} (h : Reaches store page supply d) :
    (supply = fun _ => none) ∧ d = page ∨ p d := by
  cases h with
  | page => exact Or.inl ⟨rfl, rfl⟩
  | @fragment _ _ _ _ x _ _ _ hbody hsource _ _ _ =>
      obtain ⟨e, he, hes⟩ := hstore.exists_fragment hnil x.1
      rw [← hsource] at hes
      obtain ⟨rfl, -⟩ := (hp e he).source_inj hbody (r := []) (q := []) (.inl rfl) (.inl rfl)
        (by rw [hes])
      exact Or.inr he

/-- Documents in which nothing is left to resolve have no turns. -/
theorem Html.Document.tagsClear_of_resolved {d : Document} (hd : d.WellFormed)
    (h : ∀ x ∈ d.elements, x.1.name ≠ importTag ∧ x.1.name ≠ slotTag)
    (supply : Text → Option Document) : d.TagsClear supply := by
  have himport := hd.untouched_of_lacks (by decide) fun x hx => (h x hx).1
  have hslot := hd.untouched_of_lacks (by decide) fun x hx => (h x hx).2
  have hapart : ∀ {sel : Selector} {opens : OpenTag × Document → Bool}, d.Untouched sel →
      d.KeepsApart sel opens := fun {sel} {opens} hun => by
    have hnil := List.subset_nil.1
      (Document.chosen_eq_nil_of_untouched hun ▸ Document.exposed_subset sel opens d)
    rw [Document.KeepsApart, hnil]
    exact .nil
  refine ⟨(hapart hslot).clears, ?_⟩
  rw [Document.fill_of_lacks fun x hx => (h x hx).2]
  exact (hapart himport).clears

/-- A start tag of which nothing is left to resolve. -/
structure Html.OpenTag.IsResolved (t : OpenTag) : Prop where
  not_raw : t.name ∉ RawText.names
  not_import : t.name ≠ importTag
  not_slot : t.name ≠ slotTag

/-- The sources of documents in which nothing is left to resolve. -/
def IsResolvedSource (t : Text) : Prop :=
  ∃ d : Document, d.WellFormed ∧ (∀ x ∈ d.elements, x.1.IsResolved) ∧ d.source = t

namespace Compiler

theorem exposed_frame {sel : Selector} (hsel : wrapperOpen.selectedBy sel = false)
    (opens : OpenTag × Document → Bool) (d : Document) (framed : Bool) :
    (d.frame framed).exposed sel opens = d.exposed sel opens := by
  cases framed with
  | false => rfl
  | true => simp [Document.frame, Document.inside, Document.exposed, hsel]

theorem plain_frame {d : Document} (h : d.Plain) (framed : Bool) : (d.frame framed).Plain :=
  ⟨h.wellFormed.frame framed, Document.rawless_frame h.rawless framed⟩

/-- A frame makes no difference to the turns. -/
theorem clears_frame {sel : Selector} (hsel : wrapperOpen.selectedBy sel = false)
    {opens : OpenTag × Document → Bool} {d : Document} (h : d.Clears sel opens) (framed : Bool) :
    (d.frame framed).Clears sel opens := by
  cases framed with
  | false => exact h
  | true =>
      show Clears sel opens ((d.inside wrapperOpen).pieces sel)
      rw [Document.inside, Document.pieces, if_neg (by simp [hsel])]
      exact .text (h.append_text [endTagText wrapperOpen.name, []])

theorem IsResolvedSource.clear {t : Text} (h : IsResolvedSource t) :
    ∃ cleared, Wrapper.clear t = .ok cleared ∧ IsResolvedSource cleared := by
  obtain ⟨d, hd, htags, rfl⟩ := h
  have hraw : ∀ x ∈ d.elements, x.1.table.has wrapperAttr = true → x.1.name ∉ RawText.names :=
    fun x hx _ => (htags x hx).not_raw
  refine ⟨_, hd.clear_source hraw, d.cleared, hd.retag (settles_unwrapTag hd hraw), fun x hx => ?_,
    rfl⟩
  obtain ⟨y, hy, e⟩ := Document.exists_of_mem_retag hx
  have hy := htags y hy
  rcases unwrapTag_eq_some e with ⟨e, -⟩ | ⟨e, -⟩
  · rw [e]
    exact hy
  · rw [e]
    exact ⟨hy.not_raw, hy.not_import, hy.not_slot⟩

variable {c : Compiler} {page : Document}

/-- How a level of a compiler ends on the documents that a page gets to: nothing is left to
resolve. -/
def Resolving (c : Compiler) (page : Document) (levels : Nat) : Prop :=
  ∀ {slots : Slots} {supply : Text → Option Document}, slots.Holds supply →
    (∀ n e, supply n = some e → e.IsSlotless) → ∀ {d : Document}, d.IsMarkup →
    Reaches c.store page supply d → ∀ (framed : Bool) (s : Session),
    (c.template levels slots .empty (d.frame framed).source).Ends s
      (fun t _ => IsResolvedSource t) fun _ => True

theorem expandImport_resolves (hstore : c.store.Holds Document.IsMarkup) {levels : Nat}
    (ih : c.Resolving page levels) {supply : Text → Option Document} {d : Document}
    (hreach : Reaches c.store page supply d) (he : (d.fill supply).IsSlotless)
    {x : OpenTag × Document}
    (hx : x ∈ (d.fill supply).exposed (.ofName importTag) fun _ => false) (p : Position)
    (s : Session) :
    (c.expandImport (c.template levels) .empty (x.1.matchAt p x.2)).Ends s
      (fun t _ => IsResolvedSource t) fun _ => True := by
  obtain ⟨hmem, hsel⟩ := List.mem_filter.1 (Document.exposed_subset _ _ _ hx)
  have hn := he.wellFormed.name_of_selected (by decide) hmem hsel
  obtain ⟨body, hbody, hsource⟩ := hstore.exists_fragment Document.isSlotless_text_nil.toIsMarkup x.1
  obtain ⟨b, hb⟩ := Scope.exists_encloses hbody.wellFormed
  obtain ⟨slots, hcontent, hslotless⟩ := Slots.areSlotless_ofContent (he.content hmem)
  obtain ⟨supply', hslots, hsupply⟩ := hslotless.exists_supply
  have hframe : (if b then body.source else Wrapper.around body.source)
      = (body.frame !b).source := by
    rw [Document.source_frame]
    cases b <;> rfl
  have hcall : c.expandImport (c.template levels) .empty (x.1.matchAt p x.2)
      = c.template levels slots .empty (body.frame !b).source := by
    rw [expandImport, fragment_matchAt ((he.tags x hmem).html hn), Work.lift_ok_bind, ← hsource]
    show (liftM (Slots.ofContent x.2.source) >>= _ : Work Text) = _
    rw [hcontent, Work.lift_ok_bind,
      Scope.scopeStylesOf_of_encloses hbody.wellFormed hbody.plain.rawless hb, pure_bind, hframe]
  rw [hcall]
  exact ih hslots hsupply hbody (.fragment hreach hx hbody.wellFormed hsource hcontent hslots
    fun n e he => (hsupply n e he).wellFormed) (!b) s

/-- Every level resolves the documents that the page gets to. -/
theorem resolving (hstore : c.store.Holds Document.IsMarkup)
    (hclear : ∀ supply d, Reaches c.store page supply d → d.TagsClear supply) (levels : Nat) :
    c.Resolving page levels := by
  induction levels with
  | zero =>
      intro slots supply _ _ d _ _ framed s
      exact Work.ends_throw trivial
  | succ levels ih =>
      intro slots supply hslots hsupply d hd hreach framed s
      have he := hd.fill hsupply
      have hplain := plain_frame he.plain framed
      have htags : ∀ x ∈ ((d.fill supply).frame framed).elements,
          x.1.selectedBy (.ofName importTag) = false → x.1.IsResolved := by
        intro x hx hsel
        rw [(hplain.wellFormed.tag_of_mem x hx).selectedBy_ofName (by decide)] at hsel
        refine ⟨hplain.rawless x hx, of_decide_eq_false hsel, ?_⟩
        exact Document.lacks_frame he.slotless (by decide) framed x hx
      have hfilled : (if slots.isEmpty then Slots.none else slots).fillAll
            (expandSelfClosing (d.frame framed).source)
          = .ok ((d.fill supply).frame framed).source := by
        rw [(hd.wellFormed.frame framed).expandSelfClosing_source,
          Slots.fillAll_source (holds_ifEmpty hslots)
            (fun n e he => ⟨(hsupply n e he).wellFormed, (hsupply n e he).slotless⟩)
            (plain_frame hd.plain framed)
            (clears_frame (by decide) (hclear supply d hreach).slots framed),
          Document.fill_frame]
      simp only [template, hfilled, Work.lift_ok_bind]
      cases hi : holdsImport ((d.fill supply).frame framed).source with
      | true =>
          rw [if_pos rfl, expandImports]
          have hanswers : Answers ((d.fill supply).frame framed) (.ofName importTag)
              (fun _ => false)
              (fun x => c.expandImport (c.template levels) .empty (x.1.matchAt .origin x.2))
              fun _ v => IsResolvedSource v := by
            refine ⟨fun x hx _ => ?_, by simp, by simp⟩
            rw [exposed_frame (by decide)] at hx
            refine Work.gives_of_ends fun s =>
              (expandImport_resolves hstore ih hreach he hx .origin s).mono ?_ fun _ _ => trivial
            rintro t s' ⟨q, hq, hresolved, rfl⟩
            exact ⟨hq.quiet (hq.untouched_of_lacks (by decide) fun y hy =>
              (hresolved y hy).not_import), q, hq, hresolved, rfl⟩
          obtain ⟨expanded, hexpanded, hgives⟩ := hplain.exists_replaceMatches
            (clears_frame (by decide) (hclear supply d hreach).imports framed)
            (c.expandImport (c.template levels) .empty) (fun _ _ _ => rfl) hanswers
          rw [hexpanded, Work.orFail_lift]
          refine (Work.ends_of_gives hgives s).bind fun t s' ht => ?_
          obtain ⟨cleared, hcleared, hresolved⟩ :=
            IsResolvedSource.clear (ht.2.exists_document hplain htags fun _ _ h => h)
          rw [hcleared]
          exact Work.ends_pure hresolved
      | false =>
          -- without imports, the filled text is all there is
          rw [if_neg (by decide)]
          refine Work.ends_pure ⟨_, hplain.wellFormed, fun x hx => htags x hx ?_, rfl⟩
          rw [(hplain.wellFormed.tag_of_mem x hx).selectedBy_ofName (by decide)]
          exact decide_eq_false (lacks_of_holdsImport hi x hx)

/-- Compiling leaves no import and no slot of a page that gets only to documents whose tags are
apart. -/
theorem compile_resolves (hstore : c.store.Holds Document.IsMarkup) (hpage : page.IsMarkup)
    (hclear : ∀ supply d, Reaches c.store page supply d → d.TagsClear supply) {s s' : Session}
    {t : Text} (hrun : (c.compile page.source).outcome s = (.ok t, s')) :
    (∃ out : Document, out.WellFormed ∧ out.source = t ∧ out.Lacks importTag ∧
        out.Lacks slotTag) ∧
      matchesIn t (.ofName importTag) none = .ok [] ∧
      matchesIn t (.ofName slotTag) none = .ok [] := by
  obtain ⟨out, hout, hresolved, rfl⟩ :=
    (resolving hstore hclear (c.levelsAt 0) Slots.holds_none (by simp) hpage .page false s).of_ok hrun
  have himport : out.Lacks importTag := fun x hx => (hresolved x hx).not_import
  have hslot : out.Lacks slotTag := fun x hx => (hresolved x hx).not_slot
  have hnone : ∀ {name : Text}, name.map CodePoint.toLower = name → out.Lacks name →
      matchesIn out.source (.ofName name) none = .ok [] := fun hname hlacks => by
    rw [hout.matchesIn_all, Document.selected_of_untouched (hout.untouched_of_lacks hname hlacks)]
  exact ⟨⟨out, hout, rfl, himport, hslot⟩, hnone (by decide) himport, hnone (by decide) hslot⟩

/-- An import with a content. -/
def importing (ref : Text) (content rest : Document) : Document :=
  .element [] ⟨importTag, [⟨[' '], "src".text, ref⟩], []⟩ content rest

/-- A compiler that knows three fragments. -/
def lettersCompiler : Compiler where
  store := ⟨"_imports".text, "_imports".text,
    [("_imports/a.html".text, "A".text), ("_imports/b.html".text, "<i>b</i>".text),
      ("_imports/c.html".text, "C".text)]⟩
  activeClass := []
  markdown := .ok
  maxDepth := 50
  markers := fun _ => []

/-- Its fragments are markup without an import and a slot. -/
theorem holds_lettersCompiler : lettersCompiler.store.Holds fun d =>
    d.IsMarkup ∧ ∀ x ∈ d.elements, x.1.name ≠ importTag ∧ x.1.name ≠ slotTag := by
  intro entry hentry
  rcases List.mem_cons.1 hentry with rfl | hentry
  · exact ⟨.text "A".text, by decide +kernel, rfl⟩
  · rcases List.mem_cons.1 hentry with rfl | hentry
    · exact ⟨.element [] (.bare ['i']) (.text ['b']) (.text []), by decide +kernel, by decide⟩
    · obtain rfl := List.mem_singleton.1 hentry
      exact ⟨.text "C".text, by decide +kernel, rfl⟩

theorem holds_isMarkup_lettersCompiler : lettersCompiler.store.Holds Document.IsMarkup :=
  fun entry hentry => by
    obtain ⟨d, hd, hsource⟩ := holds_lettersCompiler entry hentry
    exact ⟨d, hd.1, hsource⟩

/-- A page on which an import that is gone is written again by itself. -/
def reusingPage : Document :=
  importing "a".text (importing "b".text (.text []) (.text []))
    (importing "c".text (.text []) (importing "b".text (.text []) (.text [])))

/-- The turn of the import that is gone takes the copy ahead of its own turn. -/
theorem compile_resolves_reusing :
    lettersCompiler.store.Holds Document.IsMarkup ∧ reusingPage.IsMarkup ∧
      (∀ supply d, Reaches lettersCompiler.store reusingPage supply d → d.TagsClear supply) ∧
      matchesIn "AC<i>b</i>".text (.ofName importTag) none = .ok [] := by
  have hpage : reusingPage.IsMarkup := by decide +kernel
  have hclear : ∀ supply d, Reaches lettersCompiler.store reusingPage supply d →
      d.TagsClear supply := by
    intro supply d hreach
    rcases hreach.eq_page_or holds_lettersCompiler (fun d hd => hd.1.wellFormed)
      ⟨Document.isSlotless_text_nil.toIsMarkup, by simp⟩ with ⟨rfl, rfl⟩ | ⟨hd, htags⟩
    · refine ⟨Document.KeepsApart.clears (by decide +kernel), ?_⟩
      rw [Document.fill_of_lacks (by decide +kernel)]
      exact Document.KeepsApart.clears (by decide +kernel)
    · exact Document.tagsClear_of_resolved hd.wellFormed htags supply
  have hrun : (lettersCompiler.compile reusingPage.source).outcome .start
      = (.ok "AC<i>b</i>".text, ⟨0, []⟩) := by
    decide +kernel
  have hstore := holds_isMarkup_lettersCompiler
  exact ⟨hstore, hpage, hclear, (compile_resolves hstore hpage hclear hrun).2.1⟩

/-- A page on which an import that is gone is written again inside a later one. -/
def stealingPage : Document :=
  importing "a".text (importing "b".text (.text []) (.text []))
    (importing "c".text (importing "b".text (.text []) (.text [])) (.text []))

/-- The turn of the import that is gone takes that copy, and the later import survives. -/
theorem compile_leaves_import :
    lettersCompiler.store.Holds Document.IsMarkup ∧ stealingPage.IsMarkup ∧
      ∃ t s', (lettersCompiler.compile stealingPage.source).outcome .start = (.ok t, s') ∧
        t = "A<sergey-import src=\"c\"><i>b</i></sergey-import>".text ∧
        (matchesIn t (.ofName importTag) none).map (·.map Match.inner)
          = .ok ["<i>b</i>".text] := by
  refine ⟨holds_isMarkup_lettersCompiler, by decide +kernel, _, ⟨0, []⟩, ?_, rfl, ?_⟩
  · decide +kernel
  · decide +kernel

end Compiler
end Stencil
