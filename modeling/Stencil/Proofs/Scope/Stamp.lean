import Stencil.Proofs.Scope.Confine

set_option autoImplicit false

/-! # Stamping a fragment

The wrapper of a fragment is stamped with the loose markers of the fragment, and every element
in it, style sheets excepted, with the strict markers in force. On a document that has none of
these attributes yet, each start tag gets all of them, once.
-/

namespace Stencil

open Text Html Vocabulary

/-! ## The attributes of markers -/

/-- Whether a text is a marker: small letters and digits. -/
def IsMarker (M : Text) : Prop := ∀ c ∈ M, (c.isLower || c.isDigit) = true

theorem isMarker_of_supplied {markers : Markers} (hmarkers : ∀ n, IsMarker (markers (n + 1)))
    {Ms : List Text} (h : ∀ M ∈ Ms, ∃ n, M = markers (n + 1)) : ∀ M ∈ Ms, IsMarker M := by
  intro M hM
  obtain ⟨n, rfl⟩ := h M hM
  exact hmarkers n

theorem isElementName_append {front M : Text} (hfront : isElementName front = true)
    (hM : IsMarker M) : isElementName (front ++ M) = true := by
  cases front with
  | nil => simp [isElementName] at hfront
  | cons c s =>
      rw [isElementName, Bool.and_eq_true, List.all_eq_true] at hfront
      rw [List.cons_append, isElementName, Bool.and_eq_true, List.all_eq_true]
      refine ⟨hfront.1, fun d hd => ?_⟩
      rcases List.mem_append.1 hd with hd | hd
      · exact hfront.2 d hd
      · rw [isElementNameChar, hM d hd, Bool.true_or]

theorem isElementName_looseAttr {M : Text} (hM : IsMarker M) : isElementName (looseAttr M) = true :=
  isElementName_append (by decide) hM

theorem isElementName_strictAttr {M : Text} (hM : IsMarker M) :
    isElementName (strictAttr M) = true :=
  isElementName_append (by decide) hM

theorem IsMarker.lt_not_mem {M : Text} (hM : IsMarker M) : char '<' ∉ M := by
  intro hlt
  have := hM '<' hlt
  exact absurd this (by decide)

theorem looseAttr_injective : Function.Injective looseAttr := fun _ _ h => List.append_cancel_left h

theorem strictAttr_injective : Function.Injective strictAttr := fun _ _ h =>
  List.append_cancel_left h

theorem append_ne_append {a b : Text} (hab : a.length ≤ b.length) (h : ¬ a <+: b) (s t : Text) :
    a ++ s ≠ b ++ t := by
  intro e
  exact h (List.prefix_of_prefix_length_le ⟨s, e⟩ (List.prefix_append b t) hab)

theorem looseAttr_ne_strictAttr (M N : Text) : looseAttr M ≠ strictAttr N :=
  append_ne_append (by decide) (by decide) M N

theorem looseAttr_ne_wrapperAttr (M : Text) : looseAttr M ≠ wrapperAttr := by
  intro e
  refine append_ne_append (a := "data-sergey-scope".text) (b := wrapperAttr) (by decide)
    (by decide) ('-' :: M) [] ?_
  rw [List.append_nil, ← e]
  rfl

theorem strictAttr_ne_wrapperAttr (M : Text) : strictAttr M ≠ wrapperAttr := by
  intro e
  refine append_ne_append (a := "data-sergey-strict".text) (b := wrapperAttr) (by decide)
    (by decide) ('-' :: M) [] ?_
  rw [List.append_nil, ← e]
  rfl

/-! ## Stamping start tags -/

namespace Html

/-- A start tag with the attributes that it does not have yet, if a selector takes it. -/
def OpenTag.stamped (names : List Text) (sel : Selector) (t : OpenTag) : OpenTag :=
  if t.selectedBy sel then t.extend (names.filter (!t.table.has ·)) else t

theorem OpenTag.name_stamped (names : List Text) (sel : Selector) (t : OpenTag) :
    (t.stamped names sel).name = t.name := by
  rw [stamped]
  split
  exacts [name_extend _ _, rfl]

/-- A start tag that has every attribute of a stamp stays as it is. -/
theorem OpenTag.stamped_of_has {names : List Text} {t : OpenTag}
    (h : ∀ n ∈ names, t.table.has n = true) (sel : Selector) : t.stamped names sel = t := by
  have hnone : names.filter (!t.table.has ·) = [] := by
    rw [List.filter_eq_nil_iff]
    intro n hn
    simp [h n hn]
  rw [stamped, hnone]
  split <;> rfl

theorem OpenTag.stamped_nil (sel : Selector) (t : OpenTag) : t.stamped [] sel = t :=
  stamped_of_has (by simp) sel

section

variable {names : List Text} (hnames : ∀ n ∈ names, IsAttrName n) {sel : Selector}

include hnames

/-- A start tag that is selected has every attribute once it is stamped. -/
theorem OpenTag.has_stamped {t : OpenTag} (h : t.selectedBy sel = true) {n : Text} (hn : n ∈ names) :
    (t.stamped names sel).table.has n = true := by
  have hfilter : ∀ m ∈ names.filter (!t.table.has ·), IsAttrName m := fun m hm =>
    hnames m (List.mem_filter.1 hm).1
  rw [OpenTag.stamped, if_pos h, has_extend hfilter]
  by_cases hhas : t.table.has n = true
  · exact Or.inl hhas
  · exact Or.inr (List.mem_filter.2 ⟨hn, by simpa using hhas⟩)

/-- Stamping gives a start tag no other attribute. -/
theorem OpenTag.has_stamped_of_not_mem (t : OpenTag) {n : Text} (hn : n ∉ names) :
    (t.stamped names sel).table.has n = t.table.has n := by
  rw [OpenTag.stamped]
  split
  · exact has_extend_of_not_mem (fun m hm => hnames m (List.mem_filter.1 hm).1) fun hm =>
      hn (List.mem_filter.1 hm).1
  · rfl

/-- Stamping a start tag twice makes no difference. -/
theorem OpenTag.stamped_stamped (t : OpenTag) :
    (t.stamped names sel).stamped names sel = t.stamped names sel := by
  by_cases h : t.selectedBy sel = true
  · exact stamped_of_has (fun n hn => has_stamped hnames h hn) sel
  · have hsame : t.stamped names sel = t := if_neg h
    rw [hsame, hsame]

theorem OpenTag.WellFormed.stamped {t : OpenTag} (ht : t.WellFormed) :
    (t.stamped names sel).WellFormed := by
  rw [OpenTag.stamped, ht.extend]
  split
  exacts [ht.withAttrs fun n hn => (hnames n (List.mem_filter.1 hn).1).toIsAttrWord, ht]

/-- A start tag keeps its attributes when it is stamped. -/
theorem OpenTag.has_stamped_of_has {t : OpenTag} {n : Text} (h : t.table.has n = true) :
    (t.stamped names sel).table.has n = true := by
  rw [OpenTag.stamped]
  split
  · rw [has_extend fun m hm => hnames m (List.mem_filter.1 hm).1]
    exact Or.inl h
  · exact h

/-- Stamping settles. -/
theorem Document.WellFormed.settles_stamped {d : Document} (hd : d.WellFormed) :
    d.Settles fun t => some (t.stamped names sel) where
  wellFormed := by
    intro x hx u hu
    obtain rfl := Option.some.inj hu
    exact (hd.tag_of_mem x hx).stamped hnames
  raw := by
    intro x hx u hu
    obtain rfl := Option.some.inj hu
    rw [OpenTag.name_stamped]
  again := by
    intro x hx u hu
    obtain rfl := Option.some.inj hu
    exact congrArg some (x.1.stamped_stamped hnames)
  not_raw := fun x hx hu => by cases hu

/-- Stamping the start tags of a source. -/
theorem Document.WellFormed.stamp_source {d : Document} (hd : d.WellFormed) {limit : Option Int}
    (hlimit : matchesIn d.source sel limit = matchesIn d.source sel none) :
    Scope.stamp names sel limit d.source
      = .ok (d.retag fun t => some (t.stamped names sel)).source := by
  rw [Scope.stamp]
  by_cases hempty : names = []
  · rw [hempty, if_pos List.isEmpty_nil]
    have hnone : (fun t : OpenTag => some (t.stamped [] sel)) = some := by
      funext t
      rw [OpenTag.stamped_nil]
    rw [hnone, retag_some]
    rfl
  · rw [if_neg (by simpa using hempty)]
    have hunlimited : ∀ fn : Match → Id Text, replaceMatches fn .start sel limit d.source
        = replaceMatches fn .start sel none d.source := by
      intro fn
      rw [replaceMatches, replaceMatches, hlimit]
    have key : replaceMatches (fun m => (pure (appendAttributes m.start
          (names.filter (!m.tag.attrs.has ·))) : Id Text)) .start sel none d.source
        = pure (d.retag fun t => some (t.stamped names sel)).source :=
      hd.replaceMatches_start (hd.settles_stamped hnames) ?_ ?_ ?_
    · exact congrArg ExceptT.run ((hunlimited _).trans key)
    · intro x hx u hu
      obtain rfl := Option.some.inj hu
      exact OpenTag.name_stamped names sel x.1
    · intro x hx h
      rw [OpenTag.stamped, if_neg (by simp [h])]
    · intro x hx h p
      refine ⟨_, rfl, ?_⟩
      rw [OpenTag.stamped, if_pos h]
      exact congrArg pure ((hd.tag_of_mem x hx).isWritten.appendAttributes_source _)

end

/-! ## Marked documents -/

/-- A start tag with the strict markers in force; style sheets carry none. -/
def OpenTag.marked (strict : List Text) (t : OpenTag) : OpenTag :=
  if t.name = sheetName then t else t.withAttrs (strict.map strictAttr)

/-- A document with the strict markers in force. -/
def Document.marked (strict : List Text) (d : Document) : Document :=
  d.retag fun t => some (t.marked strict)

/-- The start tag of a wrapper with the loose markers of a fragment. -/
def wrapperWith (loose : List Text) : OpenTag := wrapperOpen.withAttrs (loose.map looseAttr)

theorem OpenTag.name_marked (strict : List Text) (t : OpenTag) : (t.marked strict).name = t.name := by
  rw [OpenTag.marked]
  split
  exacts [rfl, OpenTag.name_withAttrs _ _]

theorem Document.marked_nil (d : Document) : d.marked [] = d := by
  have hnone : (fun t : OpenTag => some (t.marked [])) = some := by
    funext t
    rw [OpenTag.marked]
    split <;> rfl
  rw [Document.marked, hnone, retag_some]

theorem isAttrName_strictAttr {strict : List Text} (h : ∀ M ∈ strict, IsMarker M) :
    ∀ n ∈ strict.map strictAttr, IsAttrName n := by
  intro n hn
  obtain ⟨M, hM, rfl⟩ := List.mem_map.1 hn
  exact isAttrName_of_isElementName (isElementName_strictAttr (h M hM))

theorem isAttrName_looseAttr {loose : List Text} (h : ∀ M ∈ loose, IsMarker M) :
    ∀ n ∈ loose.map looseAttr, IsAttrName n := by
  intro n hn
  obtain ⟨M, hM, rfl⟩ := List.mem_map.1 hn
  exact isAttrName_of_isElementName (isElementName_looseAttr (h M hM))

theorem OpenTag.IsWritten.selectedBy_stampedElements {t : OpenTag} (ht : t.IsWritten) :
    t.selectedBy Scope.stampedElements
      = (decide (t.name ≠ sheetName) && !t.table.has wrapperAttr) := by
  have hname : sameName sheetName t.name = decide (t.name = sheetName) :=
    sameName_iff (by decide) (map_toLower_of_isElementName ht.name)
  have hattr : Selector.hasAttr (t.tagAt .origin) wrapperAttr = t.table.has wrapperAttr :=
    OpenTag.hasAttr_tagAt (by decide) t .origin
  have hsel : t.selectedBy Scope.stampedElements
      = (!sameName sheetName t.name && !Selector.hasAttr (t.tagAt .origin) wrapperAttr) := by
    simp [OpenTag.selectedBy, Scope.stampedElements, Selector.selects, sheetName, OpenTag.tagAt]
  rw [hsel, hname, hattr, decide_not]

theorem wrapperAttr_not_mem_strict (strict : List Text) : wrapperAttr ∉ strict.map strictAttr := by
  intro h
  obtain ⟨M, -, e⟩ := List.mem_map.1 h
  exact strictAttr_ne_wrapperAttr M e

theorem wrapperAttr_not_mem_loose (loose : List Text) : wrapperAttr ∉ loose.map looseAttr := by
  intro h
  obtain ⟨M, -, e⟩ := List.mem_map.1 h
  exact looseAttr_ne_wrapperAttr M e

theorem wellFormed_wrapperWith {loose : List Text} (h : ∀ M ∈ loose, IsMarker M) :
    (wrapperWith loose).WellFormed :=
  wellFormed_wrapperOpen.withAttrs fun n hn => (isAttrName_looseAttr h n hn).toIsAttrWord

theorem wrapperWith_wrapperAttr {loose : List Text} (h : ∀ M ∈ loose, IsMarker M) :
    (wrapperWith loose).table.has wrapperAttr = true := by
  rw [wrapperWith, OpenTag.has_withAttrs (isAttrName_looseAttr h)]
  exact Or.inl (by decide)

theorem name_wrapperWith (loose : List Text) : (wrapperWith loose).name = "div".text :=
  OpenTag.name_withAttrs _ _

theorem wellFormed_inside_wrapperWith {loose : List Text} (h : ∀ M ∈ loose, IsMarker M)
    {d : Document} (hd : d.WellFormed) : (d.inside (wrapperWith loose)).WellFormed :=
  hd.inside (wellFormed_wrapperWith h) (by rw [name_wrapperWith]; decide)

/-- Stamping the elements inside a wrapper with strict markers. -/
theorem stamp_strict {strict loose : List Text} (hstrict : ∀ M ∈ strict, IsMarker M)
    (hloose : ∀ M ∈ loose, IsMarker M) {d : Document} (hd : d.WellFormed)
    (hun : ∀ x ∈ d.elements, x.1.table.has wrapperAttr = false)
    (hfresh : ∀ x ∈ d.elements, ∀ M ∈ strict, x.1.table.has (strictAttr M) = false) :
    Scope.stamp (strict.map strictAttr) Scope.stampedElements none
        (d.inside (wrapperWith loose)).source
      = .ok ((d.marked strict).inside (wrapperWith loose)).source := by
  have hnames := isAttrName_strictAttr hstrict
  have hwrapper : (wrapperWith loose).stamped (strict.map strictAttr) Scope.stampedElements
      = wrapperWith loose := by
    rw [OpenTag.stamped, if_neg]
    rw [(wellFormed_wrapperWith hloose).isWritten.selectedBy_stampedElements, wrapperWith_wrapperAttr hloose]
    simp
  have hmarked : ∀ x ∈ d.elements,
      some (x.1.stamped (strict.map strictAttr) Scope.stampedElements) = some (x.1.marked strict) := by
    intro x hx
    have hall : (strict.map strictAttr).filter (!x.1.table.has ·) = strict.map strictAttr := by
      refine List.filter_eq_self.2 fun n hn => ?_
      obtain ⟨M, hM, rfl⟩ := List.mem_map.1 hn
      rw [hfresh x hx M hM]
      rfl
    have ht := hd.tag_of_mem x hx
    rw [OpenTag.stamped, OpenTag.marked, ht.isWritten.selectedBy_stampedElements, hun x hx, hall,
      ht.extend]
    by_cases hn : x.1.name = sheetName <;> simp [hn]
  rw [(wellFormed_inside_wrapperWith hloose hd).stamp_source hnames rfl]
  rw [Document.inside, Document.retag, hwrapper,
    Document.retag_congr (g := fun t => some (t.marked strict)) hmarked]
  rfl

/-- Stamping a wrapper with loose markers. -/
theorem stamp_loose {loose : List Text} (hloose : ∀ M ∈ loose, IsMarker M) {d : Document}
    (hd : d.WellFormed) (hun : ∀ x ∈ d.elements, x.1.table.has wrapperAttr = false) :
    Scope.stamp (loose.map looseAttr) (.ofAttr wrapperAttr) (some 1) (d.inside wrapperOpen).source
      = .ok (d.inside (wrapperWith loose)).source := by
  have hnames := isAttrName_looseAttr hloose
  have hin : (d.inside wrapperOpen).WellFormed := hd.inside wellFormed_wrapperOpen (by decide)
  have hpassed : ∀ x ∈ d.elements, x.1.selectedBy (.ofAttr wrapperAttr) = false := by
    intro x hx
    rw [OpenTag.selectedBy_ofAttr (by decide), hun x hx]
  have hall : (loose.map looseAttr).filter (!wrapperOpen.table.has ·) = loose.map looseAttr := by
    refine List.filter_eq_self.2 fun n hn => ?_
    have hnames : wrapperOpen.table.names = [wrapperAttr] := by decide
    have hne : wrapperOpen.table.has n = false := by
      rw [Bool.eq_false_iff, ne_eq, Table.has_iff, hnames, List.mem_singleton]
      exact fun e => wrapperAttr_not_mem_loose loose (e ▸ hn)
    rw [hne]
    rfl
  have hwrapper : wrapperOpen.stamped (loose.map looseAttr) (.ofAttr wrapperAttr)
      = wrapperWith loose := by
    rw [OpenTag.stamped, if_pos (by decide), hall]
    rfl
  have hrest : ∀ x ∈ d.elements,
      some (x.1.stamped (loose.map looseAttr) (.ofAttr wrapperAttr)) = some x.1 := by
    intro x hx
    rw [OpenTag.stamped, if_neg (by simp [hpassed x hx])]
  -- the wrapper is the only element that is taken, so the limit makes no difference
  have hlimit : matchesIn (d.inside wrapperOpen).source (.ofAttr wrapperAttr) (some 1)
      = matchesIn (d.inside wrapperOpen).source (.ofAttr wrapperAttr) none := by
    rw [hin.matchesIn_source, hin.matchesIn_all, Document.inside, Document.selected_element,
      Document.selected_of_untouched hpassed]
    rfl
  rw [hin.stamp_source hnames hlimit]
  rw [Document.inside, Document.retag, hwrapper, Document.retag_congr (g := some) hrest,
    Document.retag_some]
  rfl

end Html

/-! ## A fragment with its style sheets confined -/

namespace Scope

/-- Scoping a fragment draws a marker for each of its scoped style sheets, puts it inside a
wrapper with its loose markers, and marks it with the strict ones in force. -/
theorem ends_scopeStylesOf {markers : Markers} (hmarkers : ∀ n, IsMarker (markers (n + 1)))
    {E : Failure → Prop} {d : Document} (hd : d.IsStyled markers) {inherited : Scope}
    (hinherited : ∀ M ∈ inherited.strict, ∃ n, M = markers (n + 1)) (s : Session) :
    (scopeStylesOf inherited markers d.source).Ends s
      (fun r s' => ∃ ms e, d.Confines ms e ∧ s.Draws markers (ms.map ScopeMark.marker) s' ∧
        r.1 = ((e.marked (inherited.strict ++ ScopeMark.ofKind .strict ms)).inside
          (wrapperWith (ScopeMark.ofKind .loose ms))).source ∧
        r.2.strict = inherited.strict ++ ScopeMark.ofKind .strict ms) E := by
  rw [scopeStylesOf]
  refine (ends_confine hd (fun n => (hmarkers n).lt_not_mem) empty s).bind ?_
  rintro r s' ⟨ms, e, hconfines, rfl, hdraws⟩
  have hdrawn : ∀ kind, ∀ M ∈ ScopeMark.ofKind kind ms, ∃ n, M = markers (n + 1) := fun kind M hM =>
    hdraws.exists_of_mem ((ScopeMark.ofKind_sublist kind ms).subset hM)
  have hloose := isMarker_of_supplied hmarkers (hdrawn .loose)
  have hall : ∀ M ∈ inherited.strict ++ ScopeMark.ofKind .strict ms, ∃ n, M = markers (n + 1) := by
    intro M hM
    rcases List.mem_append.1 hM with hM | hM
    exacts [hinherited M hM, hdrawn .strict M hM]
  have hstrict := isMarker_of_supplied hmarkers hall
  have he : e.IsMarkable markers := hconfines.isMarkable hd.toIsMarkable fun m hm => by
    obtain ⟨n, hn⟩ := hdraws.exists_of_mem (List.mem_map_of_mem hm)
    exact hn ▸ (hmarkers n).lt_not_mem
  have hun : ∀ x ∈ e.elements, x.1.table.has wrapperAttr = false := fun x hx =>
    (he.tags x hx).unwrapped
  have hfresh : ∀ x ∈ e.elements, ∀ M ∈ inherited.strict ++ ScopeMark.ofKind .strict ms,
      x.1.table.has (strictAttr M) = false := by
    intro x hx M hM
    obtain ⟨n, rfl⟩ := hall M hM
    exact (he.tags x hx).not_strict n
  have hown : (empty.addAll ms).loose = ScopeMark.ofKind .loose ms := rfl
  have hinforce : (inherited.append (empty.addAll ms)).strict
      = inherited.strict ++ ScopeMark.ofKind .strict ms := rfl
  dsimp only
  rw [encloses_source he.wellFormed hun]
  simp only [pure_bind]
  rw [hown, hinforce, ← source_inside_wrapperOpen, stamp_loose hloose he.wellFormed hun,
    Work.lift_ok_bind, stamp_strict hstrict hloose he.wellFormed hun hfresh, Work.lift_ok_bind]
  exact Work.ends_pure ⟨ms, e, hconfines, hdraws, rfl, rfl⟩

end Scope
end Stencil
