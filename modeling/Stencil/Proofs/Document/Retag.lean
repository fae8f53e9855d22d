import Stencil.Proofs.Document.Splice

set_option autoImplicit false

/-! # Changing start tags

Taking tags off their content, or giving them other attributes, goes down into the elements it
has changed: the content stays where it is, and its elements are changed in their turn. So the
elements may hold each other, as long as a changed tag is not changed again.
-/

namespace Stencil.Html

open Text

namespace Document

/-! ## Documents put together -/

theorem WellFormed.prepend {s : Text} {d : Document} (hs : IsRunning s) (h : d.WellFormed) :
    (d.prepend s).WellFormed := by
  have happend : ∀ {t : Text}, IsRunning t → IsRunning (s ++ t) := by
    intro t ht c hc
    rcases List.mem_append.1 hc with hc | hc
    exacts [hs c hc, ht c hc]
  cases h with
  | text ht => exact .text (happend ht)
  | element hb ht hn hc hr => exact .element (happend hb) ht hn hc hr
  | raw hb ht hn hcss hr => exact .raw (happend hb) ht hn hcss hr

theorem WellFormed.append {d e : Document} (hd : d.WellFormed) (he : e.WellFormed) :
    (d ++ e).WellFormed := by
  induction hd with
  | text hs => exact he.prepend hs
  | element hb ht hn hc _ _ ihr => exact .element hb ht hn hc ihr
  | raw hb ht hn hcss _ ihr => exact .raw hb ht hn hcss ihr

/-! ## Retagging -/

/-- A document with every start tag changed, or taken off its content together with the end
tag. -/
def retag (f : OpenTag → Option OpenTag) : Document → Document
  | text s => text s
  | element before tag content rest =>
      match f tag with
      | some u => element before u (content.retag f) (rest.retag f)
      | none => text before ++ content.retag f ++ rest.retag f

theorem retag_prepend (f : OpenTag → Option OpenTag) (s : Text) (d : Document) :
    (d.prepend s).retag f = (d.retag f).prepend s := by
  cases d with
  | text t => rfl
  | element before tag content rest =>
      rw [prepend, retag, retag]
      cases f tag with
      | none => simp
      | some u => rfl

theorem retag_append (f : OpenTag → Option OpenTag) (d e : Document) :
    (d ++ e).retag f = d.retag f ++ e.retag f := by
  induction d with
  | text s => simp [retag, retag_prepend]
  | element before tag content rest _ ih =>
      rw [element_append, retag, retag, ih]
      cases f tag with
      | none => simp [append_assoc]
      | some u => rfl

theorem retag_congr {f g : OpenTag → Option OpenTag} {d : Document}
    (h : ∀ x ∈ d.elements, f x.1 = g x.1) : d.retag f = d.retag g := by
  induction d with
  | text s => rfl
  | element before tag content rest ihc ihr =>
      have hc := ihc fun x hx => h x (by simp [hx])
      have hr := ihr fun x hx => h x (by simp [hx])
      rw [retag, retag, h (tag, content) (by simp), hc, hr]

theorem retag_some (d : Document) : d.retag some = d := by
  induction d with
  | text s => rfl
  | element before tag content rest ihc ihr => rw [retag, ihc, ihr]

/-- Whether a change of start tags keeps documents well formed and is done after one go. The
names may change, but raw text stays raw text and nothing else becomes it. -/
structure Settles (f : OpenTag → Option OpenTag) (d : Document) : Prop where
  wellFormed : ∀ x ∈ d.elements, ∀ u, f x.1 = some u → u.WellFormed
  raw : ∀ x ∈ d.elements, ∀ u, f x.1 = some u →
    (u.name ∈ RawText.names ↔ x.1.name ∈ RawText.names)
  again : ∀ x ∈ d.elements, ∀ u, f x.1 = some u → f u = some u
  not_raw : ∀ x ∈ d.elements, f x.1 = none → x.1.name ∉ RawText.names

variable {f : OpenTag → Option OpenTag}

theorem Settles.content {before : Text} {tag : OpenTag} {content rest : Document}
    (h : Settles f (element before tag content rest)) : Settles f content :=
  ⟨fun x hx => h.wellFormed x (by simp [hx]), fun x hx => h.raw x (by simp [hx]),
    fun x hx => h.again x (by simp [hx]), fun x hx => h.not_raw x (by simp [hx])⟩

theorem Settles.rest {before : Text} {tag : OpenTag} {content rest : Document}
    (h : Settles f (element before tag content rest)) : Settles f rest :=
  ⟨fun x hx => h.wellFormed x (by simp [hx]), fun x hx => h.raw x (by simp [hx]),
    fun x hx => h.again x (by simp [hx]), fun x hx => h.not_raw x (by simp [hx])⟩

theorem WellFormed.retag {d : Document} (h : d.WellFormed) (hf : d.Settles f) :
    (d.retag f).WellFormed := by
  induction h with
  | text hs => exact .text hs
  | @element before tag content rest hb ht hn hc hr ihc ihr =>
      have hmem : (tag, content) ∈ (Document.element before tag content rest).elements := by simp
      rw [Document.retag]
      split
      · rename_i u hu
        have hname : u.name ∉ RawText.names := fun e => hn ((hf.raw _ hmem u hu).1 e)
        exact .element hb (hf.wellFormed _ hmem u hu) hname (ihc hf.content) (ihr hf.rest)
      · exact ((ihc hf.content).prepend hb).append (ihr hf.rest)
  | @raw before tag css rest hb ht hn hcss hr ihr =>
      have hmem : (tag, Document.text css)
          ∈ (Document.element before tag (Document.text css) rest).elements := by simp
      rw [Document.retag]
      split
      · rename_i u hu
        have hname : u.name ∈ RawText.names := (hf.raw _ hmem u hu).2 hn
        exact .raw hb (hf.wellFormed _ hmem u hu) hname hcss (ihr hf.rest)
      · rename_i hu
        exact absurd hn (hf.not_raw _ hmem hu)

/-- The tags of a retagged document are changed tags. -/
theorem exists_of_mem_retag {d : Document} {x : OpenTag × Document}
    (hx : x ∈ (d.retag f).elements) : ∃ y ∈ d.elements, f y.1 = some x.1 := by
  induction d with
  | text s => simp [retag] at hx
  | element before tag content rest ihc ihr =>
      have hcontent : x ∈ (content.retag f).elements →
          ∃ y ∈ (element before tag content rest).elements, f y.1 = some x.1 := by
        intro h
        obtain ⟨y, hy, e⟩ := ihc h
        exact ⟨y, by simp [hy], e⟩
      have hrest : x ∈ (rest.retag f).elements →
          ∃ y ∈ (element before tag content rest).elements, f y.1 = some x.1 := by
        intro h
        obtain ⟨y, hy, e⟩ := ihr h
        exact ⟨y, by simp [hy], e⟩
      rw [retag] at hx
      split at hx
      · rename_i u hu
        simp only [elements_element, List.mem_cons, List.mem_append] at hx
        rcases hx with rfl | hx | hx
        exacts [⟨_, List.mem_cons_self, hu⟩, hcontent hx, hrest hx]
      · simp only [text_append, elements_append, elements_prepend, List.mem_append] at hx
        rcases hx with hx | hx
        exacts [hcontent hx, hrest hx]

end Document

/-! ## Retagging a source -/

/-- Whether a tag with some inside is one that a change leaves as it is. -/
def IsSettledInside (f : OpenTag → Option OpenTag) (x : Text) : Prop :=
  ∀ t : OpenTag, t.WellFormed → t.inside = x → f t = some t

section

variable {f : OpenTag → Option OpenTag}

theorem isSettledInside_inside {t : OpenTag} (ht : t.WellFormed) :
    IsSettledInside f t.inside ↔ f t = some t := by
  constructor
  · exact fun h => h t ht rfl
  · intro h u hu e
    rwa [inside_inj hu ht e]

theorem isSettledInside_endTag (name : Text) : IsSettledInside f ('/' :: name) :=
  fun _ ht e => absurd e (inside_ne_endTag ht name)

theorem Document.WellFormed.everyTag_retag {d : Document} (h : d.WellFormed) (hf : d.Settles f) :
    EveryTag (IsSettledInside f) (d.retag f).source := by
  refine (h.retag hf).everyTag fun x hx => ?_
  obtain ⟨y, hy, e⟩ := Document.exists_of_mem_retag hx
  exact ⟨(isSettledInside_inside (hf.wellFormed y hy x.1 e)).2 (hf.again y hy x.1 e),
    isSettledInside_endTag x.1.name⟩

/-- The text in front of the content of a retagged element. -/
def frontOf (f : OpenTag → Option OpenTag) (t : OpenTag) : Text :=
  ((f t).map OpenTag.source).getD []

/-- The text behind the content of a retagged element. -/
def backOf (f : OpenTag → Option OpenTag) (t : OpenTag) : Text :=
  ((f t).map fun u => endTagText u.name).getD []

theorem Document.Settles.everyTag_frontOf {d : Document} (hf : d.Settles f)
    {x : OpenTag × Document} (hx : x ∈ d.elements) :
    EveryTag (IsSettledInside f) (frontOf f x.1) := by
  rw [frontOf]
  cases hu : f x.1 with
  | none => exact everyTag_of_not_mem (by simp)
  | some u =>
      have hw := hf.wellFormed x hx u hu
      exact everyTag_source hw ((isSettledInside_inside hw).2 (hf.again x hx u hu))

theorem Document.Settles.everyTag_backOf {d : Document} (hf : d.Settles f)
    {x : OpenTag × Document} (hx : x ∈ d.elements) :
    EveryTag (IsSettledInside f) (backOf f x.1) := by
  rw [backOf]
  cases hu : f x.1 with
  | none => exact everyTag_of_not_mem (by simp)
  | some u => exact everyTag_endTagText (hf.wellFormed x hx u hu).name (isSettledInside_endTag _)

theorem Document.source_retag (before : Text) (t : OpenTag) (content rest : Document) :
    ((element before t content rest).retag f).source
      = before ++ frontOf f t ++ (content.retag f).source ++ backOf f t ++ (rest.retag f).source := by
  rw [retag, frontOf, backOf]
  cases f t <;> simp [Document.source]

variable {fn : Match → Id Text} {part : Part} {sel : Selector}

/-- Whether a single replacement changes the start tag and leaves the content, behind a text
that needs no change any more. -/
def RetagsOne (f : OpenTag → Option OpenTag) (fn : Match → Id Text) (part : Part)
    (x : OpenTag × Document) : Prop :=
  ∀ p pre post, EveryTag (IsSettledInside f) pre →
    patchOne fn part (pre ++ (x.1.source ++ x.2.source ++ endTagText x.1.name) ++ post)
        (x.1.matchAt p x.2)
      = pure (pre ++ (frontOf f x.1 ++ x.2.source ++ backOf f x.1) ++ post)

/-- With the first element of a document retagged, the replacements go on inside it and behind
it. -/
theorem Document.patch_element {before : Text} {t : OpenTag} {content rest : Document}
    (hpassed : t.selectedBy sel = false → f t = some t)
    (hstep : t.selectedBy sel = true → RetagsOne f fn part (t, content)) {pre : Text}
    (hpre : EveryTag (IsSettledInside f) (pre ++ before)) (post : Text) (p : Position)
    (ms : List Match) :
    patch fn part (pre ++ (element before t content rest).source ++ post)
        ((element before t content rest).selected sel p ++ ms)
      = patch fn part
          (pre ++ before ++ frontOf f t ++ content.source ++ (backOf f t ++ rest.source ++ post))
          (content.selected sel (p.advance (before ++ t.source))
            ++ (rest.selected sel
              (p.advance (before ++ t.source ++ content.source ++ endTagText t.name)) ++ ms)) := by
  have hsource : pre ++ (element before t content rest).source ++ post
      = pre ++ before ++ (t.source ++ content.source ++ endTagText t.name)
        ++ (rest.source ++ post) := by simp [Document.source]
  rw [selected_element, hsource]
  cases hsel : t.selectedBy sel with
  | true =>
      rw [if_pos rfl, List.singleton_append, List.cons_append, patch_cons, hstep hsel _ _ _ hpre,
        pure_bind]
      simp
  | false =>
      rw [if_neg (by decide), List.nil_append]
      simp [frontOf, backOf, hpassed hsel]

/-- When every single replacement retags its element, all of them together retag the
document. -/
theorem Document.WellFormed.patch_retag {d : Document} (h : d.WellFormed) (hf : d.Settles f)
    (hpassed : ∀ x ∈ d.elements, x.1.selectedBy sel = false → f x.1 = some x.1)
    (hstep : ∀ x ∈ d.elements, x.1.selectedBy sel = true → RetagsOne f fn part x)
    {pre : Text} (hpre : EveryTag (IsSettledInside f) pre) (post : Text) (p : Position)
    (ms : List Match) :
    patch fn part (pre ++ d.source ++ post) (d.selected sel p ++ ms)
      = patch fn part (pre ++ (d.retag f).source ++ post) ms := by
  induction d generalizing pre post p ms with
  | text s => rfl
  | element before t content rest ihc ihr =>
      have hmem : (t, content) ∈ (Document.element before t content rest).elements := by simp
      have hb : EveryTag (IsSettledInside f) before := everyTag_of_isRunning h.before
      have hpre' : EveryTag (IsSettledInside f) (pre ++ before ++ frontOf f t) :=
        (hpre.append hb).append (hf.everyTag_frontOf hmem)
      have hcontent : ∀ post p ms,
          patch fn part (pre ++ before ++ frontOf f t ++ content.source ++ post)
              (content.selected sel p ++ ms)
            = patch fn part (pre ++ before ++ frontOf f t ++ (content.retag f).source ++ post)
                ms := by
        intro post p ms
        cases h with
        | element _ _ _ hc _ =>
            exact ihc hc hf.content (fun x hx => hpassed x (by simp [hx]))
              (fun x hx => hstep x (by simp [hx])) hpre' post p ms
        | raw _ _ _ _ _ => rfl
      have hgives : EveryTag (IsSettledInside f) (content.retag f).source := by
        cases h with
        | element _ _ _ hc _ => exact hc.everyTag_retag hf.content
        | raw _ _ _ hcss _ => exact everyTag_of_not_mem hcss
      have hrest := ihr h.rest hf.rest (fun x hx => hpassed x (by simp [hx]))
        (fun x hx => hstep x (by simp [hx]))
        ((hpre'.append hgives).append (hf.everyTag_backOf hmem)) post
      rw [patch_element (hpassed _ hmem) (hstep _ hmem) (hpre.append hb), hcontent]
      have key := hrest (p.advance (before ++ t.source ++ content.source ++ endTagText t.name)) ms
      rw [source_retag]
      simpa using key

theorem patchOne_self {body : Text} {found : Match} (h : fn found = pure (found.part part)) :
    patchOne fn part body found = pure body := by
  rw [patchOne]
  split
  · rfl
  · rename_i hc
    simp only [Bool.or_eq_true, Bool.not_eq_true', not_or, Bool.not_eq_false] at hc
    obtain ⟨⟨a, b⟩, hcut⟩ := Option.isSome_iff_exists.1 hc.2
    rw [h, pure_bind, replaceFirst_of_cut? _ hcut, ← eq_of_cut? hcut]

theorem Document.WellFormed.patch_selected {d : Document} (h : d.WellFormed) (hf : d.Settles f)
    (hpassed : ∀ x ∈ d.elements, x.1.selectedBy sel = false → f x.1 = some x.1)
    (hstep : ∀ x ∈ d.elements, x.1.selectedBy sel = true → RetagsOne f fn part x) :
    patch fn part d.source (d.selected sel .origin) = pure (d.retag f).source := by
  have key := h.patch_retag hf hpassed hstep (everyTag_of_not_mem (s := []) (by simp)) [] .origin []
  simpa [patch] using key

/-- The elements that a selector takes are replaced one by one, when every replacement is the
content in another tag, or without one. -/
theorem Document.WellFormed.patch_outer {d : Document} (h : d.WellFormed) (hf : d.Settles f)
    (hpassed : ∀ x ∈ d.elements, x.1.selectedBy sel = false → f x.1 = some x.1)
    (htaken : ∀ x ∈ d.elements, x.1.selectedBy sel = true → f x.1 ≠ some x.1)
    (hfn : ∀ x ∈ d.elements, x.1.selectedBy sel = true → ∀ p,
      fn (x.1.matchAt p x.2) = pure (frontOf f x.1 ++ x.2.source ++ backOf f x.1)) :
    patch fn .outer d.source (d.selected sel .origin) = pure (d.retag f).source := by
  apply h.patch_selected hf hpassed
  intro x hx hs p pre post hpre
  have ht := h.tag_of_mem x hx
  have key : patchOne fn .outer (pre ++ (x.1.matchAt p x.2).part .outer ++ post)
      (x.1.matchAt p x.2) = _ :=
    patchOne_of_everyTag hpre ht.gt_not_mem
      (by rw [isSettledInside_inside ht]; exact htaken x hx hs) (outer_matchAt x.1 p x.2)
  rw [hfn x hx hs p, pure_bind] at key
  exact key

/-- Replacing whole elements, when every replacement is the content in another tag, or
without one. -/
theorem Document.WellFormed.replaceMatches_outer {d : Document} (h : d.WellFormed)
    (hf : d.Settles f) (hsel : sel.bareName? = none)
    (hpassed : ∀ x ∈ d.elements, x.1.selectedBy sel = false → f x.1 = some x.1)
    (htaken : ∀ x ∈ d.elements, x.1.selectedBy sel = true → f x.1 ≠ some x.1)
    (hfn : ∀ x ∈ d.elements, x.1.selectedBy sel = true → ∀ p,
      fn (x.1.matchAt p x.2) = pure (frontOf f x.1 ++ x.2.source ++ backOf f x.1)) :
    replaceMatches fn .outer sel none d.source = pure (d.retag f).source := by
  rw [replaceMatches_eq_patch (fun _ => hsel) (h.matchesIn_all sel),
    h.patch_outer hf hpassed htaken hfn, ExceptT.lift_pure]

/-- Replacing whole elements of a name by elements of other names. Nothing is left over for the
search outside the tree. -/
theorem Document.WellFormed.replaceMatches_rename {d : Document} (h : d.WellFormed)
    (hf : d.Settles f) (hleft : (d.retag f).Untouched sel)
    (hpassed : ∀ x ∈ d.elements, x.1.selectedBy sel = false → f x.1 = some x.1)
    (htaken : ∀ x ∈ d.elements, x.1.selectedBy sel = true → f x.1 ≠ some x.1)
    (hfn : ∀ x ∈ d.elements, x.1.selectedBy sel = true → ∀ p,
      fn (x.1.matchAt p x.2) = pure (frontOf f x.1 ++ x.2.source ++ backOf f x.1)) :
    replaceMatches fn .outer sel none d.source = pure (d.retag f).source := by
  have hpatch := h.patch_outer hf hpassed htaken hfn
  rw [replaceMatches_of_gives (h.matchesIn_all sel), hpatch, ExceptT.lift_pure]
  rw [hpatch]
  exact gives_pure fun _ name hname => ((h.retag hf).quiet hleft).leftovers_eq_nil hname

/-- Replacing start tags by start tags of the same name. -/
theorem Document.WellFormed.replaceMatches_start {d : Document} (h : d.WellFormed)
    (hf : d.Settles f) (hname : ∀ x ∈ d.elements, ∀ u, f x.1 = some u → u.name = x.1.name)
    (hpassed : ∀ x ∈ d.elements, x.1.selectedBy sel = false → f x.1 = some x.1)
    (hfn : ∀ x ∈ d.elements, x.1.selectedBy sel = true → ∀ p, ∃ u, f x.1 = some u ∧
      fn (x.1.matchAt p x.2) = pure u.source) :
    replaceMatches fn .start sel none d.source = pure (d.retag f).source := by
  have hpatch : patch fn .start d.source (d.selected sel .origin) = pure (d.retag f).source := by
    refine h.patch_selected hf hpassed fun x hx hs p pre post hpre => ?_
    have ht := h.tag_of_mem x hx
    obtain ⟨u, hu, hfn⟩ := hfn x hx hs p
    have hfront : frontOf f x.1 = u.source := by rw [frontOf, hu]; rfl
    have hback : backOf f x.1 = endTagText x.1.name := by
      rw [backOf, hu, Option.map_some, Option.getD_some, hname x hx u hu]
    rw [hfront, hback]
    by_cases hsame : u = x.1
    · -- a tag that has what it needs is put in its own place
      rw [hsame]
      exact patchOne_self (by rw [hfn, hsame]; rfl)
    · have hstart : (x.1.matchAt p x.2).part .start
          = char '<' :: (x.1.inside ++ char '>' :: []) := by
        simp [Match.part, OpenTag.matchAt, OpenTag.source]
      have key : patchOne fn .start (pre ++ (x.1.matchAt p x.2).part .start
          ++ (x.2.source ++ endTagText x.1.name ++ post)) (x.1.matchAt p x.2) = _ :=
        patchOne_of_everyTag hpre ht.gt_not_mem
          (by rw [isSettledInside_inside ht, hu]; exact fun e => hsame (Option.some.inj e)) hstart
      rw [hfn, pure_bind] at key
      simpa [Match.part, OpenTag.matchAt] using key
  rw [replaceMatches_start_eq_patch (h.matchesIn_all sel), hpatch,
    ExceptT.lift_pure]

end

end Stencil.Html
