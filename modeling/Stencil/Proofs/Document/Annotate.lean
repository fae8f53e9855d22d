import Stencil.Proofs.Document.Capture

set_option autoImplicit false

/-! # Annotating start tags

Appending attributes to the start tags that a selector takes changes just these tags
(`replaceMatches_annotate`). Each replacement is put where the text of the start tag still stands
first. Tags with the same text are all taken or all left, and a tag that has its new attributes
differs from every tag of the document, so the first place is the tag's own.
-/

namespace Stencil.Html

open Text

namespace Selector

/-- The elements without an attribute. -/
def withoutAttr (attr : Text) : Selector := ⟨none, [], [], [attr]⟩

theorem parse?_withoutAttr {attr : Text} (h : char ']' ∉ attr) :
    parse? ("*:not([".text ++ attr ++ "])".text) = some (.withoutAttr attr) := by
  have hcut : cut? "])".text (attr ++ "])".text) = some (attr, []) := by
    have key : cut? "])".text (attr ++ "])".text ++ []) = some (attr, []) := by
      refine cut?_append fun a b hab hb => ?_
      obtain ⟨c, b, rfl⟩ := List.exists_cons_of_ne_nil hb
      refine after?_cons_of_ne _ _ fun (e : ']' = c) => h ?_
      rw [hab, ← e]
      simp
    rwa [List.append_nil] at key
  have hnot : after? ":not([".text (":not([".text ++ (attr ++ "])".text))
      = some (attr ++ "])".text) := after?_append _ _
  show readParts? _ (":not([".text ++ (attr ++ "])".text)).length
    (":not([".text ++ (attr ++ "])".text)) = _
  have hsource : ":not([".text ++ (attr ++ "])".text)
      = char ':' :: ("not([".text ++ (attr ++ "])".text)) := rfl
  rw [hsource] at hnot ⊢
  have hbracket : after? "[".text (':' :: ("not([".text ++ (attr ++ "])".text))) = none := rfl
  rw [List.length_cons, readParts?, hbracket, hnot]
  · simp only [hcut, Option.bind_some]
    rw [readParts?]
    rfl
  · exact List.cons_ne_nil _ _

end Selector

/-! ## Annotated documents -/

/-- The document in which the start tags that a condition holds of have more attributes, without a
value, behind their own ones. -/
def Document.annotate (p : OpenTag → Bool) (names : List Text) (d : Document) : Document :=
  d.retag fun t => some (if p t then t.withAttrs names else t)

namespace OpenTag

/-- Whether a start tag has none of some attributes. -/
def isNewTo (names : List Text) (t : OpenTag) : Bool := t.attrs.all fun a => !names.elem a.name

/-- A start tag that has more attributes, unless it had one of them already. -/
def annotated (p : OpenTag → Bool) (names : List Text) (t : OpenTag) : OpenTag :=
  if p t && t.isNewTo names then t.withAttrs names else t

variable {p : OpenTag → Bool} {names : List Text}

theorem name_annotated (t : OpenTag) : (t.annotated p names).name = t.name := by
  rw [annotated]
  split
  exacts [name_withAttrs t names, rfl]

/-- What has been annotated once is left as it is. -/
theorem annotated_annotated (t : OpenTag) :
    (t.annotated p names).annotated p names = t.annotated p names := by
  by_cases h : (p t && t.isNewTo names) = true
  · rw [show t.annotated p names = t.withAttrs names from if_pos h]
    cases names with
    | nil =>
        rw [annotated]
        split <;> rfl
    | cons n names =>
        -- it has the first of the attributes now
        have hold : (t.withAttrs (n :: names)).isNewTo (n :: names) = false := by
          rw [isNewTo, List.all_eq_false]
          exact ⟨⟨[' '], n, []⟩, by simp [withAttrs], by simp⟩
        rw [annotated, hold, Bool.and_false]
        rfl
  · rw [show t.annotated p names = t from if_neg h, annotated, if_neg h]

theorem WellFormed.annotated {t : OpenTag} (h : t.WellFormed)
    (hnames : ∀ n ∈ names, IsAttrWord n) : (t.annotated p names).WellFormed := by
  rw [OpenTag.annotated]
  split
  exacts [h.withAttrs hnames, h]

end OpenTag

namespace Document.WellFormed

variable {d : Document} (hd : d.WellFormed) {names : List Text}
  (hnames : ∀ n ∈ names, IsAttrWord n)

include hd hnames

theorem settles_annotated (p : OpenTag → Bool) :
    d.Settles fun t => some (t.annotated p names) where
  wellFormed := by
    intro x hx u hu
    obtain rfl := Option.some.inj hu
    exact (hd.tag_of_mem x hx).annotated hnames
  raw := by
    intro x hx u hu
    obtain rfl := Option.some.inj hu
    rw [OpenTag.name_annotated]
  again := by
    intro x hx u hu
    obtain rfl := Option.some.inj hu
    exact congrArg some x.1.annotated_annotated
  not_raw := fun x hx hu => by cases hu

/-- Appending attributes that no element has annotates the elements that a selector takes. -/
theorem replaceMatches_annotate (hnew : ∀ x ∈ d.elements, ∀ a ∈ x.1.attrs, a.name ∉ names)
    (sel : Selector) :
    replaceMatches (fun found => (pure (appendAttributes found.start names) : Id Text)) .start sel
        none d.source
      = pure (d.annotate (·.selectedBy sel) names).source := by
  -- the attributes are new to every tag, so whether it gets them is up to the selector
  have hall : ∀ x ∈ d.elements, x.1.isNewTo names = true := fun x hx =>
    List.all_eq_true.2 fun a ha => by simpa using hnew x hx a ha
  have hannotate : d.annotate (·.selectedBy sel) names
      = d.retag fun t => some (t.annotated (·.selectedBy sel) names) := by
    refine retag_congr fun x hx => ?_
    rw [OpenTag.annotated, hall x hx, Bool.and_true]
  rw [hannotate]
  refine hd.replaceMatches_start (hd.settles_annotated hnames _) ?_ ?_ ?_
  · intro x hx u hu
    obtain rfl := Option.some.inj hu
    exact x.1.name_annotated
  · intro x hx h
    rw [OpenTag.annotated, h, Bool.false_and]
    rfl
  · intro x hx h p
    refine ⟨_, rfl, congrArg pure ?_⟩
    rw [OpenTag.annotated, h, hall x hx, Bool.and_self, if_pos rfl]
    exact (hd.tag_of_mem x hx).appendAttributes_source names

end Document.WellFormed

/-! ## Elements of a name, and elements without an attribute -/

theorem OpenTag.selectedBy_withoutAttr (attr : Text) (t : OpenTag) :
    t.selectedBy (.withoutAttr attr) = !t.table.has (attr.map CodePoint.toLower) := by
  rw [← hasAttr_tagAt_map attr t .origin]
  simp [OpenTag.selectedBy, Selector.withoutAttr, Selector.selects]

theorem Document.annotate_congr {p q : OpenTag → Bool} {d : Document}
    (h : ∀ x ∈ d.elements, p x.1 = q x.1) (names : List Text) :
    d.annotate p names = d.annotate q names :=
  retag_congr fun x hx => by rw [h x hx]

/-- **Editing start tags in place.** Appending attributes that no element of a document has to the
start tags of a name, or to those without some attribute, gives the document in which exactly these
elements have the new attributes behind their own ones, however many of its tags are alike and
however its elements stand inside each other. -/
theorem replaceMatches_start_annotates {d : Document} (hd : d.WellFormed) {names : List Text}
    (hnames : ∀ n ∈ names, IsAttrWord n)
    (hnew : ∀ x ∈ d.elements, ∀ a ∈ x.1.attrs, a.name ∉ names) :
    (∀ name, isElementName name = true →
      replaceMatches (fun found => (pure (appendAttributes found.start names) : Id Text)) .start
          (.ofName name) none d.source
        = pure (d.annotate (fun t => decide (t.name = name)) names).source ∧
      (name.all Selector.isNameChar = true → Selector.parse? name = some (.ofName name))) ∧
    (∀ attr,
      replaceMatches (fun found => (pure (appendAttributes found.start names) : Id Text)) .start
          (.withoutAttr attr) none d.source
        = pure (d.annotate (fun t => !t.table.has (attr.map CodePoint.toLower)) names).source ∧
      (char ']' ∉ attr → Selector.parse? ("*:not([".text ++ attr ++ "])".text)
        = some (.withoutAttr attr))) := by
  have key := hd.replaceMatches_annotate hnames hnew
  constructor
  · intro name hname
    refine ⟨?_, parse?_name hname⟩
    rw [key]
    exact congrArg (pure <| Document.source ·) (Document.annotate_congr (fun x hx =>
      (hd.tag_of_mem x hx).selectedBy_ofName (map_toLower_of_isElementName hname)) names)
  · intro attr
    refine ⟨?_, Selector.parse?_withoutAttr⟩
    rw [key]
    exact congrArg (pure <| Document.source ·)
      (Document.annotate_congr (fun x _ => x.1.selectedBy_withoutAttr attr) names)

/-- Elements that hold each other, with start tags that are alike. -/
def alikeBoxes : Document :=
  .element "a".text (.bare "p".text)
    (.element [] ⟨"b".text, [⟨" ".text, "k".text, "p".text⟩], []⟩
      (.element [] (.bare "p".text) (.text "x".text) (.text []))
      (.element "\n".text (.bare "b".text) (.text []) (.text [])))
    (.element [] (.bare "p".text) (.text []) (.text "y".text))

theorem replaceMatches_start_annotates_alikeBoxes :
    alikeBoxes.source = "a<p><b k=\"p\"><p>x</p></b>\n<b></b></p><p></p>y".text ∧
      replaceMatches (fun found =>
          (pure (appendAttributes found.start ["new".text, "P2".text]) : Id Text)) .start
          (.ofName "p".text) none alikeBoxes.source
        = pure ("a<p new=\"\" P2=\"\"><b k=\"p\"><p new=\"\" P2=\"\">x</p></b>".text ++
          "\n<b></b></p><p new=\"\" P2=\"\"></p>y".text) ∧
      replaceMatches (fun found =>
          (pure (appendAttributes found.start ["new".text, "P2".text]) : Id Text)) .start
          (.withoutAttr "k".text) none alikeBoxes.source
        = pure ("a<p new=\"\" P2=\"\"><b k=\"p\"><p new=\"\" P2=\"\">x</p></b>".text ++
          "\n<b new=\"\" P2=\"\"></b></p><p new=\"\" P2=\"\"></p>y".text) := by
  obtain ⟨hname, hattr⟩ := replaceMatches_start_annotates (d := alikeBoxes)
    (by decide +kernel) (show ∀ n ∈ ["new".text, "P2".text], IsAttrWord n by decide +kernel)
    (by decide +kernel)
  refine ⟨by decide +kernel, ?_, ?_⟩
  · rw [(hname "p".text (by decide)).1]
    exact congrArg pure (by decide +kernel)
  · rw [(hattr "k".text).1]
    exact congrArg pure (by decide +kernel)

end Stencil.Html
