import Stencil.Html.Patch
import Stencil.Proofs.Document.Matches

set_option autoImplicit false

/-! # Where the text of an element stands first

A replacement takes the first place where the text of an element stands. In a text whose tags
are all finished, every `<` begins a tag with a known inside, so the text of an element cannot
begin there unless that tag is its own start tag. A text with no tag of a kind is quiet for the
elements of that kind: put in front of one of them, it does not hide it.
-/

namespace Stencil.Html

open Text

/-! ## Finished tags -/

/-- Whether every `<` of a text begins a tag that ends in it and whose inside has a property. -/
def EveryTag (P : Text → Prop) (s : Text) : Prop :=
  ∀ a b, s = a ++ char '<' :: b → ∃ x r, b = x ++ char '>' :: r ∧ char '>' ∉ x ∧ P x

section

variable {P : Text → Prop}

theorem everyTag_of_not_mem {s : Text} (h : char '<' ∉ s) : EveryTag P s := by
  rintro a b rfl
  exact absurd (by simp) h

theorem EveryTag.append {s t : Text} (hs : EveryTag P s) (ht : EveryTag P t) :
    EveryTag P (s ++ t) := by
  intro a b e
  rcases List.append_eq_append_iff.1 e with ⟨c, rfl, ht'⟩ | ⟨c, rfl, hc⟩
  · exact ht c b ht'
  · cases c with
    | nil =>
        obtain ⟨x, r, hb, hx⟩ := ht [] b (by simpa using hc.symm)
        exact ⟨x, r, hb, hx⟩
    | cons d c =>
        obtain ⟨rfl, rfl⟩ := List.cons.inj hc
        obtain ⟨x, r, rfl, hx⟩ := hs a c rfl
        exact ⟨x, r ++ t, by simp, hx⟩

/-- A single tag. -/
theorem everyTag_tag {x : Text} (hlt : char '<' ∉ x) (hgt : char '>' ∉ x) (h : P x) :
    EveryTag P ([char '<'] ++ x ++ [char '>']) := by
  intro a b e
  cases a with
  | nil =>
      have hb : b = x ++ [char '>'] := by simpa using e.symm
      exact ⟨x, [], hb, hgt, h⟩
  | cons c a =>
      have hm : char '<' ∈ x ++ [char '>'] := by
        have htail : x ++ [char '>'] = a ++ char '<' :: b := by simpa using (List.cons.inj e).2
        rw [htail]
        simp
      simp [hlt] at hm

/-- A text that begins with a tag of another kind does not begin in a text of finished tags. -/
theorem EveryTag.after?_eq_none {s a b x y r : Text} (hs : EveryTag P s) (hx : char '>' ∉ x)
    (hP : ¬ P x) (hab : s = a ++ b) (hb : b ≠ []) :
    after? ('<' :: (x ++ char '>' :: y)) (b ++ r) = none := by
  rw [after?_eq_none_iff]
  intro q e
  cases b with
  | nil => exact hb rfl
  | cons c b =>
      obtain ⟨rfl, e⟩ := List.cons.inj e
      obtain ⟨z, w, rfl, hz, hPz⟩ := hs a b hab
      have hzx : z ++ char '>' :: (w ++ r) = x ++ char '>' :: (y ++ q) := by simpa using e
      exact hP ((append_cons_inj_of_not_mem hz hx hzx).1 ▸ hPz)

/-- A text that begins with a tag of another kind stands nowhere in a text of finished tags. -/
theorem EveryTag.contains_eq_false {s x : Text} (hs : EveryTag P s) (hx : char '>' ∉ x) (hP : ¬ P x)
    (y : Text) : contains s ('<' :: (x ++ char '>' :: y)) = false := by
  rw [contains_eq_false_iff]
  intro a b e
  rw [List.append_assoc] at e
  have hnone := hs.after?_eq_none (y := y) (r := []) hx hP e (by simp)
  rw [List.append_nil, after?_append] at hnone
  cases hnone

theorem EveryTag.cut?_append {s x y post : Text} (hs : EveryTag P s) (hx : char '>' ∉ x)
    (hP : ¬ P x) :
    cut? ('<' :: (x ++ char '>' :: y)) (s ++ char '<' :: (x ++ char '>' :: y) ++ post)
        = some (s, post) :=
  Text.cut?_append fun a b hab hb => by
    rw [List.append_assoc]
    exact hs.after?_eq_none hx hP hab hb

end

/-! ## Tags of documents -/

theorem QuotedAttr.WellFormed.forall_mem_source {a : QuotedAttr} (h : a.WellFormed) :
    ∀ c ∈ a.source, c ≠ '<' ∧ c ≠ '>' := by
  intro c hc
  simp only [QuotedAttr.source, List.mem_append, List.mem_cons, List.not_mem_nil, or_false] at hc
  rcases hc with (((hc | hc) | hc | hc) | hc) | hc
  · rcases eq_of_isIndent (h.gap c hc) with rfl | rfl | rfl | rfl | rfl <;> decide
  · have hn := h.name c hc
    simp only [isQuotedAttrChar, StartTag.isAttrNameChar, Bool.and_eq_true, bne_iff_ne,
      Bool.not_eq_true', Bool.or_eq_false_iff, beq_eq_false_iff_ne] at hn
    exact ⟨hn.1.1.2, hn.1.1.1.2⟩
  · subst hc
    decide
  · subst hc
    decide
  · have hv := h.value c hc
    simp only [isValueChar, Bool.and_eq_true, bne_iff_ne] at hv
    exact ⟨hv.1.1.1, hv.1.1.2⟩
  · subst hc
    decide

theorem OpenTag.IsWritten.forall_mem_inside {t : OpenTag} (h : t.IsWritten) :
    ∀ c ∈ t.inside, c ≠ '<' ∧ c ≠ '>' := by
  obtain ⟨g, hg, htail⟩ := h.exists_gap
  intro c hc
  simp only [OpenTag.inside, OpenTag.trailer, htail, List.mem_append, List.mem_flatMap] at hc
  rcases hc with hc | ⟨a, ha, hc⟩ | hc | hc
  · exact ⟨fun e => not_mem_of_isElementName h.name (by decide) (e ▸ hc),
      fun e => not_mem_of_isElementName h.name (by decide) (e ▸ hc)⟩
  · exact (h.attrs a ha).forall_mem_source c hc
  · rcases eq_of_isIndent (hg c hc) with rfl | rfl | rfl | rfl | rfl <;> decide
  · cases hclose : t.closesItself with
    | true =>
        rw [hclose, if_pos rfl, List.mem_singleton] at hc
        subst hc
        decide
    | false => simp [hclose] at hc

theorem OpenTag.IsWritten.gt_not_mem {t : OpenTag} (h : t.IsWritten) : char '>' ∉ t.inside :=
  fun hm => (h.forall_mem_inside _ hm).2 rfl

theorem OpenTag.IsWritten.lt_not_mem {t : OpenTag} (h : t.IsWritten) : char '<' ∉ t.inside :=
  fun hm => (h.forall_mem_inside _ hm).1 rfl

theorem OpenTag.WellFormed.gt_not_mem {t : OpenTag} (h : t.WellFormed) : char '>' ∉ t.inside :=
  h.isWritten.gt_not_mem

theorem OpenTag.WellFormed.lt_not_mem {t : OpenTag} (h : t.WellFormed) : char '<' ∉ t.inside :=
  h.isWritten.lt_not_mem

/-- A start tag is determined by what it holds. -/
theorem inside_inj {t u : OpenTag} (ht : t.WellFormed) (hu : u.WellFormed)
    (h : t.inside = u.inside) : t = u :=
  (openTag_source_inj (r := []) (q := []) ht hu (by simp [OpenTag.source, h])).1

/-- What a start tag holds begins with a letter. -/
theorem inside_ne_cons {t : OpenTag} (ht : t.IsWritten) {c : CodePoint} (hc : c.isAlpha = false)
    (s : Text) : t.inside ≠ c :: s := by
  obtain ⟨d, n, hn, hd⟩ := exists_cons_of_isElementName ht.name
  rw [OpenTag.inside, hn]
  intro e
  rw [(List.cons.inj e).1, hc] at hd
  cases hd

theorem inside_ne_endTag {t : OpenTag} (ht : t.WellFormed) (name : Text) :
    t.inside ≠ char '/' :: name := inside_ne_cons ht.isWritten (by decide) name

theorem everyTag_startTag {P : Text → Prop} {t : OpenTag} (ht : t.IsWritten) (h : P t.inside) :
    EveryTag P t.source := everyTag_tag ht.lt_not_mem ht.gt_not_mem h

theorem everyTag_source {P : Text → Prop} {t : OpenTag} (ht : t.WellFormed) (h : P t.inside) :
    EveryTag P t.source := everyTag_startTag ht.isWritten h

theorem everyTag_endTagText {P : Text → Prop} {name : Text} (hname : isElementName name = true)
    (h : P ('/' :: name)) : EveryTag P (endTagText name) := by
  have hlt : char '<' ∉ char '/' :: name := by
    simpa using not_mem_of_isElementName hname (a := '<') (by decide)
  have hgt : char '>' ∉ char '/' :: name := by
    simpa using not_mem_of_isElementName hname (a := '>') (by decide)
  simpa [endTagText] using everyTag_tag hlt hgt h

theorem everyTag_of_isRunning {P : Text → Prop} {s : Text} (h : IsRunning s) : EveryTag P s :=
  everyTag_of_not_mem (not_mem_of_isRunning h)

/-- The tags of a document are those of its elements. -/
theorem Document.WellFormed.everyTag {P : Text → Prop} {d : Document} (h : d.WellFormed)
    (hP : ∀ x ∈ d.elements, P x.1.inside ∧ P ('/' :: x.1.name)) : EveryTag P d.source := by
  induction h with
  | text hs => exact everyTag_of_isRunning hs
  | @element before tag content rest hb ht hn hc hr ihc ihr =>
      obtain ⟨hopen, hclose⟩ := hP (tag, content) (by simp)
      exact ((((everyTag_of_isRunning hb).append (everyTag_source ht hopen)).append
        (ihc fun x hx => hP x (by simp [hx]))).append (everyTag_endTagText ht.name hclose)).append
        (ihr fun x hx => hP x (by simp [hx]))
  | @raw before tag css rest hb ht hn hcss hr ihr =>
      obtain ⟨hopen, hclose⟩ := hP (tag, .text css) (by simp)
      exact ((((everyTag_of_isRunning hb).append (everyTag_source ht hopen)).append
        (everyTag_of_not_mem hcss)).append (everyTag_endTagText ht.name hclose)).append
        (ihr fun x hx => hP x (by simp [hx]))

theorem Document.WellFormed.tag_of_mem {d : Document} (h : d.WellFormed) :
    ∀ x ∈ d.elements, x.1.WellFormed := by
  induction h with
  | text hs => simp
  | element hb ht hn hc hr ihc ihr =>
      simp only [elements_element, List.mem_cons, List.mem_append]
      rintro x (rfl | hx | hx)
      exacts [ht, ihc x hx, ihr x hx]
  | raw hb ht hn hcss hr ihr =>
      simp only [elements_element, elements_text, List.nil_append, List.mem_cons]
      rintro x (rfl | hx)
      exacts [ht, ihr x hx]

/-! ## Occurrences of tags -/

/-- Every element of a document stands somewhere in its source. -/
theorem Document.exists_source_eq {d : Document} {x : OpenTag × Document} (hx : x ∈ d.elements) :
    ∃ a b, d.source = a ++ (x.1.source ++ x.2.source ++ endTagText x.1.name) ++ b := by
  induction d with
  | text s => simp at hx
  | element before tag content rest ihc ihr =>
      simp only [elements_element, List.mem_cons, List.mem_append] at hx
      rcases hx with rfl | hx | hx
      · exact ⟨before, rest.source, by simp [source]⟩
      · obtain ⟨a, b, e⟩ := ihc hx
        exact ⟨before ++ tag.source ++ a, b ++ endTagText tag.name ++ rest.source,
          by simp [source, e]⟩
      · obtain ⟨a, b, e⟩ := ihr hx
        exact ⟨before ++ tag.source ++ content.source ++ endTagText tag.name ++ a, b,
          by simp [source, e]⟩

/-- Where no start tag of a name begins, no element has that name. -/
theorem Document.lacks_of_contains_eq_false {d : Document} {name : Text}
    (h : contains d.source ('<' :: name) = false) : d.Lacks name := by
  rintro x hx rfl
  obtain ⟨a, b, e⟩ := exists_source_eq hx
  refine (contains_eq_false_iff _ _).1 h a
    (x.1.trailer ++ [char '>'] ++ x.2.source ++ endTagText x.1.name ++ b) ?_
  simp [e, OpenTag.source, OpenTag.inside]

/-- A start tag that stands in the source of a document is that of an element. -/
theorem Document.WellFormed.exists_of_source_eq {d : Document} (h : d.WellFormed) {t : OpenTag}
    (ht : t.WellFormed) {a b : Text} (hsource : d.source = a ++ t.source ++ b) :
    ∃ x ∈ d.elements, x.1 = t := by
  by_contra hnone
  have hevery : EveryTag (· ≠ t.inside) d.source := h.everyTag fun x hx =>
    ⟨fun e => hnone ⟨x, hx, inside_inj (h.tag_of_mem x hx) ht e⟩,
      fun e => inside_ne_endTag ht x.1.name e.symm⟩
  have hnone := hevery.contains_eq_false ht.gt_not_mem (by simp) []
  rw [contains_eq_false_iff] at hnone
  exact hnone a b (by simp [hsource, OpenTag.source])

/-! ## Quiet texts -/

/-- Whether a tag with some inside neither opens an element that a selector takes, nor closes
one when the selector is a name. -/
def IsQuietInside (sel : Selector) (x : Text) : Prop :=
  (∀ t : OpenTag, t.WellFormed → t.inside = x → t.selectedBy sel = false) ∧
    ∀ name, sel.bareName? = some name → x ≠ char '/' :: name

/-- Whether a text holds no tag of an element that a selector takes. -/
abbrev Quiet (sel : Selector) (s : Text) : Prop := EveryTag (IsQuietInside sel) s

theorem bareName?_eq_some {sel : Selector} {name : Text} (h : sel.bareName? = some name) :
    sel = .ofName name := by
  unfold Selector.bareName? at h
  split at h
  · split at h
    · rw [← Option.some.inj h]
      rfl
    · simp at h
  · simp at h

theorem bareName?_ofName {name : Text} (hname : isElementName name = true)
    (hchars : name.all Selector.isNameChar = true) :
    (Selector.ofName name).bareName? = some name := by
  obtain ⟨c, s, rfl, hc⟩ := exists_cons_of_isElementName hname
  rw [List.all_cons, Bool.and_eq_true] at hchars
  have hs : s.all (fun c => isWord c || c == '-') = true := hchars.2
  rw [Selector.ofName, Selector.bareName?, hc, hs]
  rfl

theorem selectedBy_ofName_self (t : OpenTag) : t.selectedBy (.ofName t.name) = true := by
  simp [OpenTag.selectedBy, Selector.ofName, Selector.selects, sameName, OpenTag.tagAt]

theorem isQuietInside_inside {sel : Selector} {t : OpenTag} (ht : t.WellFormed) :
    IsQuietInside sel t.inside ↔ t.selectedBy sel = false := by
  constructor
  · exact fun h => h.1 t ht rfl
  · intro h
    refine ⟨fun u hu e => ?_, fun name _ => inside_ne_endTag ht name⟩
    rwa [inside_inj hu ht e]

theorem isQuietInside_endTag {sel : Selector} {t : OpenTag}
    (h : t.selectedBy sel = false) : IsQuietInside sel ('/' :: t.name) := by
  refine ⟨fun u hu e => absurd e (inside_ne_endTag hu t.name), fun name hname e => ?_⟩
  rw [bareName?_eq_some hname, ← (List.cons.inj e).2, selectedBy_ofName_self] at h
  exact absurd h (by decide)

/-- The start tag of an element that a selector does not take is quiet. -/
theorem OpenTag.WellFormed.quiet_source {sel : Selector} {t : OpenTag} (ht : t.WellFormed)
    (h : t.selectedBy sel = false) : Quiet sel t.source :=
  everyTag_source ht ((isQuietInside_inside ht).2 h)

/-- So is its end tag. -/
theorem OpenTag.WellFormed.quiet_endTagText {sel : Selector} {t : OpenTag} (ht : t.WellFormed)
    (h : t.selectedBy sel = false) : Quiet sel (endTagText t.name) :=
  everyTag_endTagText ht.name (isQuietInside_endTag h)

/-- Whether no element of a document is one that a selector takes. -/
def Document.Untouched (sel : Selector) (d : Document) : Prop :=
  ∀ x ∈ d.elements, x.1.selectedBy sel = false

/-- A document without elements that a selector takes is quiet. -/
theorem Document.WellFormed.quiet {d : Document} (h : d.WellFormed) {sel : Selector}
    (hd : d.Untouched sel) : Quiet sel d.source :=
  h.everyTag fun x hx =>
    ⟨(isQuietInside_inside (h.tag_of_mem x hx)).2 (hd x hx), isQuietInside_endTag (hd x hx)⟩

/-- What is found outside the tree: a tag of the name, with no other tag up to the end tag. -/
theorem eq_of_leftover {name s rest : Text}
    (h : ((after? ('<' :: name) s).bind fun r =>
      if (r.takeWhile (· != char '<')).elem (char '>')
          then after? (endTagText name) (r.dropWhile (· != char '<'))
      else none) = some rest) :
    ∃ u, char '<' ∉ u ∧ s = char '<' :: (name ++ u) ++ (endTagText name ++ rest) := by
  obtain ⟨r, hr, h⟩ := Option.bind_eq_some_iff.1 h
  split at h
  · refine ⟨r.takeWhile (· != '<'), fun hm => ?_, ?_⟩
    · simpa using List.mem_takeWhile_imp hm
    · rw [(after?_eq_some_iff _ _ _).1 hr, ← (after?_eq_some_iff _ _ _).1 h, ← List.cons_append,
        List.append_assoc, List.takeWhile_append_dropWhile]
  · cases h

/-- A text that holds no end tag of a name leaves nothing over for that name. -/
theorem leftoversFrom_eq_nil {name : Text} (k : Nat) {s : Text}
    (h : ∀ a b, s ≠ a ++ endTagText name ++ b) : leftoversFrom name k s = [] := by
  induction s generalizing k with
  | nil => simp [leftoversFrom]
  | cons c s ih =>
      have hs : ∀ a b, s ≠ a ++ endTagText name ++ b := fun a b e => h (c :: a) b (by simp [e])
      cases k with
      | succ k => rw [leftoversFrom, ih k hs]
      | zero =>
          rw [leftoversFrom]
          split
          · rename_i rest e
            obtain ⟨u, -, hsource⟩ := eq_of_leftover e
            rw [← List.append_assoc] at hsource
            exact absurd hsource (h _ _)
          · exact ih 0 hs

theorem Quiet.leftovers_eq_nil {sel : Selector} {name s : Text} (h : Quiet sel s)
    (hname : sel.bareName? = some name) : leftovers name s = [] := by
  have hnot : char '>' ∉ char '/' :: name := by
    intro hm
    have hsel := bareName?_eq_some hname
    rw [hsel] at hname
    rcases List.mem_cons.1 hm with hm | hm
    · exact absurd hm (by decide)
    · cases name with
      | nil => simp at hm
      | cons c name =>
          rw [Selector.ofName, Selector.bareName?] at hname
          split at hname
          · rename_i hc
            simp only [Bool.and_eq_true, List.all_eq_true] at hc
            rcases List.mem_cons.1 hm with rfl | hm
            · exact absurd hc.1 (by decide)
            · exact absurd (hc.2 _ hm) (by decide)
          · simp at hname
  have hclose : ¬ IsQuietInside sel ('/' :: name) := fun hquiet => hquiet.2 name hname rfl
  have hnone := h.contains_eq_false hnot hclose []
  rw [contains_eq_false_iff] at hnone
  apply leftoversFrom_eq_nil 0
  intro a b e
  exact hnone a b (by simp [e, endTagText])

end Stencil.Html
