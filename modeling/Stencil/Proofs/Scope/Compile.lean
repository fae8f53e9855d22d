import Stencil.Proofs.Scope.Expand

set_option autoImplicit false

/-! # Compiling with scoped style sheets

A level of the compiler gets the source of a marked document, inside a wrapper with the loose
markers of its fragment, or by itself when it is the page. It replaces each import by what the
next level makes of its fragment and takes the wrappers out. What it draws meanwhile are the
markers of the imports that it expands.
-/

namespace Stencil

open Text Html Vocabulary

/-! ## Slots -/

/-- Without slots, there is nothing to fill. -/
theorem Slots.fillAll_of_lacks (slots : Slots) {d : Document} (h : d.WellFormed)
    (hd : d.Lacks slotTag) : slots.fillAll d.source = .ok d.source := by
  have huntouched : d.Untouched (.ofName slotTag) := h.untouched_of_lacks (by decide) hd
  rw [fillAll, h.replaceMatches_of_untouched huntouched]
  rfl

/-- A name that does not begin as the attributes of strict markers do is none of them. -/
theorem not_mem_map_strictAttr {name : Text} (h : ¬ "data-sergey-strict-".text <+: name)
    (strict : List Text) : name ∉ strict.map strictAttr := by
  intro hmem
  obtain ⟨M, -, rfl⟩ := List.mem_map.1 hmem
  exact h (List.prefix_append _ M)

/-! ## Passing over a wrapper -/

namespace Html.Document

/-- What is put in inside a wrapper stays inside the wrapper. -/
theorem ends_splice_wrapped {f : OpenTag → Document → Work Text} {E : Failure → Prop}
    {d : Document} {s : Session} {P : Document → Session → Prop}
    (h : (d.splice (.ofName importTag) f).Ends s
      (fun t s' => ∃ mid : Document, t = mid.source ∧ P mid s') E)
    {wrapper : Option (List Text)} (hw : ∀ M ∈ wrapper.getD [], IsMarker M) :
    ((d.wrapped wrapper).splice (.ofName importTag) f).Ends s
      (fun t s' => ∃ mid : Document, t = (mid.wrapped wrapper).source ∧ P mid s') E := by
  cases wrapper with
  | none => exact h
  | some loose =>
      have hpassed : (wrapperWith loose).selectedBy (.ofName importTag) = false := by
        have hopen : (wrapperWith loose).WellFormed := wellFormed_wrapperWith hw
        rw [hopen.selectedBy_ofName (by decide), name_wrapperWith]
        decide
      rw [wrapped, inside, splice, hpassed, if_neg (by decide), splice]
      refine h.bind ?_
      rintro t s' ⟨mid, rfl, hmid⟩
      rw [pure_bind]
      exact Work.ends_pure ⟨mid, rfl, hmid⟩

end Html.Document

namespace Compiler

variable {c : Compiler} {strict : List Text}

/-- How a level of a compiler ends on a marked document inside a wrapper: in its expansion, or
with too many levels. Only the wrapper that the document came in may be left in the text. -/
def Scoping (c : Compiler) (levels : Nat) : Prop :=
  ∀ (slots : Slots) {scope : Scope}, (∀ M ∈ scope.strict, ∃ n, M = c.markers (n + 1)) →
    ∀ {wrapper : Option (List Text)}, (∀ M ∈ wrapper.getD [], IsMarker M) →
      (wrapper.getD []).Nodup → ∀ {d : Document}, d.IsMarkable c.markers → ∀ s : Session,
    (c.template levels slots scope ((d.marked scope.strict).wrapped wrapper).source).Ends s
      (fun t s' => Composes c.store c.markers scope.strict (wrapper.getD []) d s t s' ∧
        (wrapper = none → Wrapper.clear t = .ok t))
      (fun e => e = .tooDeep c.maxDepth)

section

variable (hstore : c.store.Holds (Document.IsStyled c.markers))
  (hmarkers : ∀ n, IsMarker (c.markers (n + 1)))
  (hinj : Function.Injective fun n => c.markers (n + 1))

include hstore hmarkers hinj

/-- A marked import is replaced by the expansion of its fragment when the next level scopes. -/
theorem expandImport_scopes {levels : Nat} (ih : c.Scoping levels) {scope : Scope}
    (hscope : ∀ M ∈ scope.strict, ∃ n, M = c.markers (n + 1)) {tag : OpenTag}
    (htag : tag.IsMarkable c.markers) (hn : tag.name = importTag) {content : Document}
    (hcontent : content.WellFormed) (p : Position) (s : Session) :
    (c.expandImport (c.template levels) scope ((tag.marked scope.strict).matchAt p content)).Ends s
      (Composes c.store c.markers scope.strict [] (.element [] tag (.text []) (.text [])) s)
      (fun e => e = .tooDeep c.maxDepth) := by
  have hstrict := isMarker_of_supplied hmarkers hscope
  -- the attributes that an import is read by are none of the markers
  have hread : ∀ name, name ∉ scope.strict.map strictAttr →
      (tag.marked scope.strict).attr? name = tag.attr? name :=
    fun name => OpenTag.attr?_marked hstrict
  have hhtml : (tag.marked scope.strict).attr? "as".text ≠ some "markdown".text := by
    rw [hread _ (not_mem_map_strictAttr (by decide) _)]
    exact htag.html hn
  have hfragment : fragmentText c.store (tag.marked scope.strict) = fragmentText c.store tag := by
    rw [fragmentText, fragmentText, hread _ (not_mem_map_strictAttr (by decide) _)]
  obtain ⟨body, hbody, hsource⟩ :=
    hstore.exists_fragment (Document.isStyled_text_nil c.markers) tag
  rw [expandImport, fragment_matchAt hhtml, hfragment, Work.lift_ok_bind, ← hsource]
  show Work.Ends (liftM (Slots.ofContent content.source) >>= _ : Work Text) _ _ _
  rw [Slots.ofContent_source hcontent, Work.lift_ok_bind]
  refine (Scope.ends_scopeStylesOf hmarkers hbody hscope s).bind ?_
  rintro ⟨t, inner⟩ s₁ ⟨ms, e, hconfines, hdraws, rfl, hinner⟩
  dsimp only at hinner ⊢
  -- the markers of the fragment come from the supply, so the next level can go on with them
  have hms : ∀ kind, ∀ M ∈ ScopeMark.ofKind kind ms, ∃ n, M = c.markers (n + 1) :=
    fun kind M hM => hdraws.exists_of_mem ((ScopeMark.ofKind_sublist kind ms).subset hM)
  have hloose : ∀ M ∈ (some (ScopeMark.ofKind .loose ms)).getD [], IsMarker M :=
    isMarker_of_supplied hmarkers (hms .loose)
  have hnodup : ((some (ScopeMark.ofKind .loose ms)).getD []).Nodup :=
    (hdraws.nodup hinj).sublist (ScopeMark.ofKind_sublist .loose ms)
  have hinforce : ∀ M ∈ inner.strict, ∃ n, M = c.markers (n + 1) := by
    intro M hM
    rw [hinner, List.mem_append] at hM
    rcases hM with hM | hM
    exacts [hscope M hM, hms .strict M hM]
  have he : e.IsMarkable c.markers := hconfines.isMarkable hbody.toIsMarkable fun m hm => by
    obtain ⟨n, hn⟩ := hdraws.exists_of_mem (List.mem_map_of_mem hm)
    exact hn ▸ (hmarkers n).lt_not_mem
  have key := ih (Slots.contentSlots content) hinforce hloose hnodup he s₁
  rw [hinner] at key
  refine key.mono ?_ fun _ he => he
  rintro t s₂ ⟨⟨mid, xs, out, rfl, hmid, hclear, hexp, hdraws'⟩, -⟩
  refine ⟨mid, ⟨tag, ms, out⟩ :: (xs ++ []), _, rfl, hmid, ?_,
    .fragment hn hbody.wellFormed hsource hconfines hexp (.text []), ?_⟩
  · rw [hclear]
    simp [Document.enclosed]
  · have h := hdraws.append hdraws'
    rwa [List.append_nil]

/-- When every import is replaced by its expansion, a marked document is expanded. -/
theorem ends_splice_scoping {levels : Nat} (ih : c.Scoping levels) {scope : Scope}
    (hscope : ∀ M ∈ scope.strict, ∃ n, M = c.markers (n + 1)) {d : Document}
    (hwf : d.WellFormed) (htags : ∀ x ∈ d.elements, x.1.IsMarkable c.markers) (s : Session) :
    ((d.marked scope.strict).splice (.ofName importTag) fun t content =>
        c.expandImport (c.template levels) scope (t.matchAt .origin content)).Ends s
      (Composes c.store c.markers scope.strict [] d s)
      (fun e => e = .tooDeep c.maxDepth) := by
  have hstrict := isMarker_of_supplied hmarkers hscope
  induction d generalizing s with
  | text u =>
      cases hwf with
      | text hu => exact Work.ends_pure (.text hu)
  | element before tag content rest ihc ihr =>
      have htag := htags (tag, content) (by simp)
      have hrest := ihr hwf.rest fun x hx => htags x (by simp [hx])
      have hselected : (tag.marked scope.strict).selectedBy (.ofName importTag)
          = decide (tag.name = importTag) := by
        rw [(hwf.tag.marked hstrict).selectedBy_ofName (by decide), OpenTag.name_marked]
      rw [Document.marked_element, Document.splice, hselected]
      by_cases hn : tag.name = importTag
      · -- the import gives way to the expansion of its fragment
        rw [decide_eq_true hn, if_pos rfl]
        have hcontent := (hwf.content_of_ne (hn ▸ by decide)).marked hstrict
        refine (expandImport_scopes hstore hmarkers hinj ih hscope htag hn hcontent .origin s).bind
          ?_
        intro t s₁ ht
        refine (hrest s₁).bind fun r s₂ hr => Work.ends_pure ?_
        exact .fragment hwf.before hn ht hr
      · rw [decide_eq_false hn, if_neg (by decide)]
        cases hwf with
        | element hb ht hraw hc hr =>
            -- the element stays, and its content is expanded
            have hcontent := ihc hc fun x hx => htags x (by simp [hx])
            refine (hcontent s).bind fun t s₁ hv => (hrest s₁).bind fun r s₂ hr => ?_
            exact Work.ends_pure (.element hstrict hb ht hraw hn htag.unwrapped hv hr)
        | raw hb ht hraw hcss hr =>
            refine Work.Ends.bind (P := fun t s' => t = _ ∧ s' = s) (Work.ends_pure ⟨rfl, rfl⟩) ?_
            rintro t s₁ ⟨rfl, rfl⟩
            refine (hrest _).bind fun r s₂ hr => Work.ends_pure ?_
            exact .raw hstrict hb ht hraw hcss htag.unwrapped hr

/-- The imports of a marked document in its wrapper are replaced where they stand. -/
theorem replaceMatches_scoping {levels : Nat} (ih : c.Scoping levels) {scope : Scope}
    (hscope : ∀ M ∈ scope.strict, ∃ n, M = c.markers (n + 1)) {wrapper : Option (List Text)}
    (hw : ∀ M ∈ wrapper.getD [], IsMarker M) {d : Document} (hd : d.IsMarkable c.markers) :
    replaceMatches (c.expandImport (c.template levels) scope) .outer (.ofName importTag) none
        ((d.marked scope.strict).wrapped wrapper).source
      = ExceptT.lift (((d.marked scope.strict).wrapped wrapper).splice (.ofName importTag)
        fun t content => c.expandImport (c.template levels) scope (t.matchAt .origin content)) := by
  have hwf : ((d.marked scope.strict).wrapped wrapper).WellFormed :=
    (hd.wellFormed.marked (isMarker_of_supplied hmarkers hscope)).wrapped hw
  -- the wrapper is no import, and an import has no content
  have himport : ∀ x ∈ ((d.marked scope.strict).wrapped wrapper).elements,
      x.1.selectedBy (.ofName importTag) = true → ∃ tag : OpenTag,
        tag.IsMarkable c.markers ∧ tag.name = importTag ∧
          x = (tag.marked scope.strict, .text []) := by
    intro x hx hsel
    have hn := hwf.name_of_selected (by decide) hx hsel
    rcases Document.mem_elements_wrapped hx with ⟨loose, -, rfl⟩ | hx
    · rw [name_wrapperWith] at hn
      exact absurd hn (by decide)
    · rw [Document.elements_marked] at hx
      obtain ⟨y, hy, rfl⟩ := List.mem_map.1 hx
      rw [OpenTag.name_marked] at hn
      rw [hd.imports y hy hn]
      exact ⟨y.1, hd.tags y hy, hn, rfl⟩
  refine hwf.replaceMatches_splice ?_ (fun _ _ _ _ => rfl) ?_
  · intro x hx hsel
    obtain ⟨tag, -, -, rfl⟩ := himport x hx hsel
    simp [Document.Untouched]
  · intro x hx hsel
    obtain ⟨tag, htag, hn, rfl⟩ := himport x hx hsel
    have hempty : (Document.text []).WellFormed := .text (by simp [IsRunning])
    refine Work.gives_of_ends fun s =>
      (expandImport_scopes hstore hmarkers hinj ih hscope htag hn hempty .origin s).mono ?_
        fun _ _ => trivial
    rintro t s' ⟨mid, xs, out, rfl, hmid, -⟩
    exact hmid.quiet

/-- With its imports replaced and the wrappers taken out, a marked document is composed. -/
theorem ends_expandImports_scoping {levels : Nat} (ih : c.Scoping levels) {scope : Scope}
    (hscope : ∀ M ∈ scope.strict, ∃ n, M = c.markers (n + 1)) {wrapper : Option (List Text)}
    (hw : ∀ M ∈ wrapper.getD [], IsMarker M) (hnodup : (wrapper.getD []).Nodup) {d : Document}
    (hd : d.IsMarkable c.markers) (s : Session) :
    (c.expandImports (c.template levels) scope ((d.marked scope.strict).wrapped wrapper).source
        >>= fun t => liftM (Wrapper.clear t)).Ends s
      (fun t s' => Composes c.store c.markers scope.strict (wrapper.getD []) d s t s' ∧
        (wrapper = none → Wrapper.clear t = .ok t))
      (fun e => e = .tooDeep c.maxDepth) := by
  rw [expandImports, replaceMatches_scoping hstore hmarkers hinj ih hscope hw hd,
    Work.orFail_lift]
  refine (Document.ends_splice_wrapped (P := fun mid s' => ∃ xs out, mid.IsComposed ∧
    mid.cleared = out ∧ ScopeExpands c.store scope.strict d xs out ∧
    s.Draws c.markers (xs.flatMap Expansion.drawn) s') ?_ hw).bind ?_
  · refine (ends_splice_scoping hstore hmarkers hinj ih hscope hd.wellFormed hd.tags s).mono
      ?_ fun _ he => he
    rintro t s' ⟨mid, xs, out, rfl, hmid, hclear, hexp, hdraws⟩
    exact ⟨mid, rfl, xs, out, hmid, hclear, hexp, hdraws⟩
  · -- clearing takes out the wrapper of this level and those that are left inside
    rintro t s' ⟨mid, rfl, xs, out, hmid, hclear, hexp, hdraws⟩
    have hcomposed := hmid.wrapped hw
    rw [hcomposed.clear_source]
    have hagain := Document.cleared_of_unwrapped hcomposed.unwrapped_cleared
    refine Work.ends_pure ⟨⟨_, xs, out, rfl, hcomposed.cleared, ?_, hexp, hdraws⟩, fun _ => ?_⟩
    · rw [hagain, Document.cleared_wrapped hw hnodup, hclear]
    · rw [hcomposed.cleared.clear_source, hagain]

omit hstore hinj in
/-- Without imports, a marked document is composed, and its wrapper is left to take out. -/
theorem composes_of_lacks {scope : Scope} (hscope : ∀ M ∈ scope.strict, ∃ n, M = c.markers (n + 1))
    {wrapper : Option (List Text)} (hw : ∀ M ∈ wrapper.getD [], IsMarker M)
    (hnodup : (wrapper.getD []).Nodup) {d : Document} (hd : d.IsMarkable c.markers)
    (hnone : d.Lacks importTag) (s : Session) :
    Composes c.store c.markers scope.strict (wrapper.getD []) d s
        ((d.marked scope.strict).wrapped wrapper).source s ∧
      (wrapper = none → Wrapper.clear ((d.marked scope.strict).wrapped wrapper).source
        = .ok ((d.marked scope.strict).wrapped wrapper).source) := by
  have hstrict := isMarker_of_supplied hmarkers hscope
  have hun : ∀ x ∈ (d.marked scope.strict).elements, x.1.table.has wrapperAttr = false := by
    intro x hx
    rw [Document.elements_marked] at hx
    obtain ⟨y, hy, rfl⟩ := List.mem_map.1 hx
    exact OpenTag.unwrapped_marked hstrict (hd.tags y hy).unwrapped
  have hcomposed := Document.IsComposed.marked hstrict hd.wellFormed hnone hun
  refine ⟨⟨_, [], d.marked scope.strict, rfl, hcomposed.wrapped hw, ?_,
    Document.scopeExpands_of_lacks c.store scope.strict hnone, .nil⟩, ?_⟩
  · rw [Document.cleared_wrapped hw hnodup, Document.cleared_of_unwrapped hun]
  · rintro rfl
    exact hcomposed.clear_source.trans
      (congrArg (Except.ok ·.source) (Document.cleared_of_unwrapped hun))

/-- Every level of the compiler scopes. -/
theorem scoping (levels : Nat) : c.Scoping levels := by
  induction levels with
  | zero =>
      intro slots scope _ wrapper _ _ d _ s
      exact Work.ends_throw rfl
  | succ levels ih =>
      intro slots scope hscope wrapper hw hnodup d hd s
      have hwf : ((d.marked scope.strict).wrapped wrapper).WellFormed :=
        (hd.wellFormed.marked (isMarker_of_supplied hmarkers hscope)).wrapped hw
      have hslotless : d.Lacks slotTag := fun x hx => (hd.tags x hx).not_slot
      have hfilled : ∀ slots : Slots,
          slots.fillAll (expandSelfClosing ((d.marked scope.strict).wrapped wrapper).source)
            = .ok ((d.marked scope.strict).wrapped wrapper).source := by
        intro slots
        rw [hwf.expandSelfClosing_source]
        exact slots.fillAll_of_lacks hwf
          ((hslotless.marked scope.strict).wrapped (by decide) wrapper)
      simp only [template, hfilled, Work.lift_ok_bind]
      cases hi : holdsImport ((d.marked scope.strict).wrapped wrapper).source with
      | true =>
          rw [if_pos rfl]
          exact ends_expandImports_scoping hstore hmarkers hinj ih hscope hw hnodup hd s
      | false =>
          have hnone : d.Lacks importTag := by
            intro x hx hn
            have hmem : (x.1.marked scope.strict, x.2.marked scope.strict)
                ∈ (d.marked scope.strict).elements := by
              rw [Document.elements_marked]
              exact List.mem_map_of_mem hx
            refine lacks_of_holdsImport hi _ (Document.mem_wrapped_of_mem hmem wrapper) ?_
            rw [OpenTag.name_marked, hn]
          rw [if_neg (by decide)]
          exact Work.ends_pure (composes_of_lacks hmarkers hscope hw hnodup hd hnone s)

end

end Compiler
end Stencil
