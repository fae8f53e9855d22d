import Stencil.Link
import Stencil.Proofs.Document.Select

set_option autoImplicit false

/-! # Links as anchors

On a document every link becomes an anchor with the same content, wherever it stands and whatever
other links are written in the same way. An anchor begins with its target, and keeps the other
attributes of the link in their order; on an active link the class is set, and on a link to the
page itself the mark of the current page, each in its old place or behind all others. Attributes
are taken as they are read: with their names in small letters, and each name once.
-/

namespace Stencil

open Text Html Vocabulary

namespace Link

/-! ## The attributes of an anchor -/

/-- The target of a link: what it names in `to`, or else in `href`. -/
def goalOf (attrs : Attributes) : Text :=
  ((attrs.get? "to".text).or (attrs.get? "href".text)).getD []

/-- The attributes of a link that say nothing of its target. -/
def others (attrs : Attributes) : Attributes := (attrs.erase "to".text).erase "href".text

/-- The class of an active link: the class of active links, and behind a space the old one. -/
def activeName (activeClass : Text) (attrs : Attributes) : Text :=
  trim (activeClass ++ [char ' '] ++ trimLeft ((attrs.get? "class".text).getD []))

/-- The attributes that the anchor for a link has behind its target, on the page at a path. A link
is active on a page at or below its target. -/
def behindTarget (activeClass path : Text) (attrs : Attributes) : Attributes :=
  if path ≠ [] ∧ barePath (goalOf attrs) <+: barePath path then
    let classed := Table.put "class".text (activeName activeClass attrs) (others attrs)
    if barePath path = barePath (goalOf attrs) then
      Table.put "aria-current".text "page".text classed
    else classed
  else others attrs

/-- The attributes of the anchor for a link, on the page at a path. -/
def anchorAttrs (activeClass path : Text) (attrs : Attributes) : Attributes :=
  ("href".text, goalOf attrs) :: behindTarget activeClass path attrs

/-- A start tag, that of an anchor if it is that of a link. -/
def anchored (activeClass path : Text) (t : OpenTag) : OpenTag :=
  if t.name = linkTag then .ofTable ['a'] (anchorAttrs activeClass path t.table) else t

/-! ## The target -/

theorem target_eq (attrs : Attributes) :
    (target attrs).1 = goalOf attrs ∧ (target attrs).2.erase "href".text = others attrs ∧
      (target attrs).2.get? "class".text = attrs.get? "class".text := by
  have hto : "class".text ≠ "to".text := by decide
  have hhref : "class".text ≠ "href".text := by decide
  rw [target, goalOf, others]
  cases hfirst : attrs.get? "to".text with
  | some goal =>
      have hhas : attrs.has "to".text = true := by rw [Table.has, hfirst]; rfl
      rw [List.find?_cons_of_pos hhas]
      exact ⟨congrArg (Option.getD · []) hfirst, rfl, Table.get?_erase_of_ne hto attrs⟩
  | none =>
      have hhas : ¬ attrs.has "to".text = true := by rw [Table.has, hfirst]; decide
      have herase : attrs.erase "to".text = attrs :=
        Table.erase_of_not_mem fun hm => hhas (Table.has_iff.2 hm)
      rw [List.find?_cons_of_neg hhas, herase, Option.none_or]
      cases hsecond : attrs.get? "href".text with
      | some goal =>
          have hhas' : attrs.has "href".text = true := by rw [Table.has, hsecond]; rfl
          rw [List.find?_cons_of_pos hhas']
          exact ⟨congrArg (Option.getD · []) hsecond, Table.erase_erase _ _,
            Table.get?_erase_of_ne hhref attrs⟩
      | none =>
          have hhas' : ¬ attrs.has "href".text = true := by rw [Table.has, hsecond]; decide
          rw [List.find?_cons_of_neg hhas', List.find?_nil]
          exact ⟨rfl, rfl, rfl⟩

/-- A link is active on the pages at or below its target. -/
theorem isActive_iff (goal path : Text) :
    (isCurrent goal path || isParent goal path) = true ↔
      path ≠ [] ∧ barePath goal <+: barePath path := by
  have hparent : isParent goal path = true ↔ path ≠ [] ∧ barePath goal <+: barePath path := by
    rw [isParent, Bool.and_eq_true, Bool.not_eq_true', List.isEmpty_eq_false_iff, startsWith_iff]
  rw [Bool.or_eq_true, hparent, or_iff_right_iff_imp, isCurrent, Bool.and_eq_true, Bool.not_eq_true',
    List.isEmpty_eq_false_iff, beq_iff_eq]
  rintro ⟨hpath, e⟩
  exact ⟨hpath, e ▸ List.prefix_refl _⟩

theorem isCurrent_iff {goal path : Text} (hpath : path ≠ []) :
    isCurrent goal path = true ↔ barePath path = barePath goal := by
  rw [isCurrent, Bool.and_eq_true, Bool.not_eq_true', List.isEmpty_eq_false_iff, beq_iff_eq]
  exact and_iff_right hpath

/-! ## What an anchor can hold -/

theorem href_not_mem_others (attrs : Attributes) : "href".text ∉ (others attrs).names := by
  rw [others, Table.names_erase]
  simp

section

variable {activeClass : Text} (hclass : ∀ c ∈ activeClass, isValueChar c = true) {attrs : Attributes}
  (h : IsAttrTable attrs)

include h

theorem isAttrTable_others : IsAttrTable (others attrs) := (h.erase _).erase _

theorem isValueChar_goalOf : ∀ c ∈ goalOf attrs, isValueChar c = true := by
  have hto := h.getD "to".text
  rw [goalOf]
  cases hgoal : attrs.get? "to".text with
  | none =>
      rw [Option.none_or]
      exact h.getD _
  | some goal => rwa [hgoal] at hto

include hclass

theorem isValueChar_activeName : ∀ c ∈ activeName activeClass attrs, isValueChar c = true := by
  intro c hc
  rcases List.mem_append.1 (mem_of_mem_trim hc) with hc | hc
  · rcases List.mem_append.1 hc with hc | hc
    · exact hclass c hc
    · rw [List.mem_singleton.1 hc]
      decide
  · exact h.getD _ c ((List.dropWhile_suffix _).subset hc)

theorem isAttrTable_behindTarget (path : Text) :
    IsAttrTable (behindTarget activeClass path attrs) ∧
      "href".text ∉ (behindTarget activeClass path attrs).names := by
  have hothers := isAttrTable_others h
  have hclassed :
      IsAttrTable (Table.put "class".text (activeName activeClass attrs) (others attrs)) :=
    hothers.put (isAttrName_of_isElementName (by decide)) (isValueChar_activeName hclass h)
  have hnew : "href".text ∉
      (Table.put "class".text (activeName activeClass attrs) (others attrs)).names := by
    rw [Table.mem_names_put hothers.nodup, not_or]
    exact ⟨by decide, href_not_mem_others attrs⟩
  rw [behindTarget]
  split
  · split
    · refine ⟨hclassed.put (isAttrName_of_isElementName (by decide)) (by decide), ?_⟩
      rw [Table.mem_names_put hclassed.nodup, not_or]
      exact ⟨by decide, hnew⟩
    · exact ⟨hclassed, hnew⟩
  · exact ⟨hothers, href_not_mem_others attrs⟩

theorem isAttrTable_anchorAttrs (path : Text) : IsAttrTable (anchorAttrs activeClass path attrs) :=
  have ⟨hbehind, hnew⟩ := isAttrTable_behindTarget hclass h path
  hbehind.cons (isAttrName_of_isElementName (by decide)) (isValueChar_goalOf h) hnew

end

/-! ## The anchor of a link -/

theorem erase_activate (activeClass : Text) (current : Bool) (attrs : Attributes) :
    (activate activeClass current (target attrs).2).erase "href".text
      = let classed := Table.set "class".text (activeName activeClass attrs) (others attrs)
        if current then Table.set "aria-current".text "page".text classed else classed := by
  obtain ⟨-, hothers, hold⟩ := target_eq attrs
  have hclassed : ∀ value, (Table.set "class".text value (target attrs).2).erase "href".text
      = Table.set "class".text value (others attrs) := by
    intro value
    rw [Table.erase_set_of_ne (by decide), hothers]
  rw [activate, hold]
  cases current with
  | true =>
      show (Table.set _ _ _).erase _ = Table.set _ _ _
      rw [Table.erase_set_of_ne (by decide), hclassed]
      rfl
  | false => exact hclassed _

/-- The attributes that are printed behind the target. -/
theorem erase_active_eq (activeClass path : Text) {attrs : Attributes} (h : IsAttrTable attrs) :
    (if isCurrent (target attrs).1 path || isParent (target attrs).1 path then
        activate activeClass (isCurrent (target attrs).1 path) (target attrs).2
      else (target attrs).2).erase "href".text
      = behindTarget activeClass path attrs := by
  obtain ⟨hgoal, hothers, -⟩ := target_eq attrs
  have hnodup := (isAttrTable_others h).nodup
  rw [behindTarget, hgoal]
  by_cases hactive : path ≠ [] ∧ barePath (goalOf attrs) <+: barePath path
  · -- an anchor loses its old target after the class is set, `behindTarget` before that
    rw [if_pos ((isActive_iff _ _).2 hactive), if_pos hactive, erase_activate]
    dsimp only
    rw [Table.set_eq_put hnodup, Table.set_eq_put (Table.nodup_names_put hnodup _ _)]
    exact if_congr (isCurrent_iff hactive.1) rfl rfl
  · rw [if_neg fun e => hactive ((isActive_iff _ _).1 e), if_neg hactive, hothers]

theorem anchor_matchAt {activeClass : Text} (hclass : ∀ c ∈ activeClass, isValueChar c = true)
    (path : Text) {t : OpenTag} (ht : t.WellFormed) (p : Position) (content : Document) :
    anchor activeClass path (t.matchAt p content)
      = (OpenTag.ofTable ['a'] (anchorAttrs activeClass path t.table)).source ++ content.source
        ++ endTagText ['a'] := by
  have hclose : (endTagText t.name).isEmpty = false := by simp [endTagText]
  rw [← startTagText_eq_source _ (isAttrTable_anchorAttrs hclass ht.isAttrTable path), anchorAttrs,
    ← erase_active_eq activeClass path ht.isAttrTable, ← (target_eq t.table).1]
  show _ ++ content.source ++ (if (endTagText t.name).isEmpty then [] else endTagText ['a']) = _
  rw [hclose]
  rfl

/-! ## Links in a document -/

theorem anchored_of_ne {t : OpenTag} (h : t.name ≠ linkTag) (activeClass path : Text) :
    anchored activeClass path t = t := if_neg h

theorem name_anchored_ne (activeClass path : Text) (t : OpenTag) :
    (anchored activeClass path t).name ≠ linkTag := by
  rw [anchored]
  split
  · show [char 'a'] ≠ linkTag
    decide
  · assumption

theorem settles_anchored {activeClass : Text} (hclass : ∀ c ∈ activeClass, isValueChar c = true)
    (path : Text) {d : Document} (h : d.WellFormed) :
    d.Settles fun t => some (anchored activeClass path t) where
  wellFormed := by
    rintro x hx u ⟨⟩
    have ht := h.tag_of_mem x hx
    rw [anchored]
    split
    · have hbare : (OpenTag.bare ['a']).WellFormed := by decide +kernel
      exact hbare.ofTable (isAttrTable_anchorAttrs hclass ht.isAttrTable path)
    · exact ht
  raw := by
    rintro x hx u ⟨⟩
    rw [anchored]
    split
    · rename_i hlink
      rw [hlink]
      show [char 'a'] ∈ RawText.names ↔ linkTag ∈ RawText.names
      decide
    · rfl
  again := by
    rintro x hx u ⟨⟩
    exact congrArg some (anchored_of_ne (name_anchored_ne _ _ _) _ _)
  not_raw := by
    rintro x hx ⟨⟩

/-- A document with an anchor for every link. -/
def withAnchors (activeClass path : Text) (d : Document) : Document :=
  d.retag fun t => some (anchored activeClass path t)

theorem lacks_withAnchors (activeClass path : Text) (d : Document) :
    (withAnchors activeClass path d).Lacks linkTag := by
  intro x hx
  obtain ⟨y, -, e⟩ := Document.exists_of_mem_retag hx
  rw [← Option.some.inj e]
  exact name_anchored_ne _ _ _

theorem withAnchors_of_lacks {d : Document} (h : d.Lacks linkTag) (activeClass path : Text) :
    withAnchors activeClass path d = d := by
  have hsame : d.retag (fun t => some (anchored activeClass path t)) = d.retag some :=
    Document.retag_congr fun x hx => congrArg some (anchored_of_ne (h x hx) activeClass path)
  exact hsame.trans (Document.retag_some d)

/-- Exactly the links of a document become anchors, on the page at any path. -/
theorem activateAll_source {d : Document} (hd : d.Plain) {activeClass : Text}
    (hclass : ∀ c ∈ activeClass, isValueChar c = true) (path : Text) :
    activateAll activeClass path d.source = .ok (withAnchors activeClass path d).source := by
  have h := hd.wellFormed
  rw [activateAll]
  split
  · have hselected : ∀ x ∈ d.elements,
        x.1.selectedBy (.ofName linkTag) = decide (x.1.name = linkTag) := fun x hx =>
      (h.tag_of_mem x hx).selectedBy_ofName (by decide)
    have hsettles := settles_anchored hclass path h
    have hleft : (withAnchors activeClass path d).Untouched (.ofName linkTag) :=
      (h.retag hsettles).untouched_of_lacks (by decide) (lacks_withAnchors activeClass path d)
    refine congrArg ExceptT.run (h.replaceMatches_rename hsettles hleft ?_ ?_ ?_)
    · intro x hx hs
      rw [hselected x hx, decide_eq_false_iff_not] at hs
      exact congrArg some (anchored_of_ne hs activeClass path)
    · intro x hx hs e
      rw [hselected x hx, decide_eq_true_eq] at hs
      exact name_anchored_ne activeClass path x.1 ((congrArg _ (Option.some.inj e)).trans hs)
    · intro x hx hs p
      rw [hselected x hx, decide_eq_true_eq] at hs
      rw [anchor_matchAt hclass path (h.tag_of_mem x hx)]
      simp [frontOf, backOf, anchored, hs]
  · -- a text without the name of a link has no link
    rename_i hnone
    rw [withAnchors_of_lacks (Document.lacks_of_contains_eq_false (by simpa using hnone))]
    rfl

/-- Two links that are written alike, of which the second one holds a link to a page elsewhere. -/
def alikeLinks : Document :=
  let up : OpenTag := ⟨linkTag, [⟨[' '], "class".text, " k".text⟩,
    ⟨[' '], "href".text, "/x".text⟩, ⟨[' '], "to".text, "/blog/".text⟩,
    ⟨[' '], "id".text, "u".text⟩], []⟩
  let away : OpenTag := ⟨linkTag, [⟨[' '], "href".text, "/shop/".text⟩], []⟩
  .element "a".text up (.text "b".text)
    (.element [] up (.element [] away (.text "c".text) (.text [])) (.text "d".text))

theorem activateAll_source_alikeLinks :
    alikeLinks.Plain ∧ (∀ c ∈ "on".text, isValueChar c = true) ∧
      activateAll "on".text "/blog/index.html".text alikeLinks.source
        = .ok ("a<a href=\"/blog/\" class=\"on k\" id=\"u\" aria-current=\"page\">b</a>" ++
            "<a href=\"/blog/\" class=\"on k\" id=\"u\" aria-current=\"page\">" ++
            "<a href=\"/shop/\">c</a></a>d").text := by
  have hplain : alikeLinks.Plain := by decide +kernel
  have hclass : ∀ c ∈ "on".text, isValueChar c = true := by decide
  refine ⟨hplain, hclass, ?_⟩
  rw [activateAll_source hplain hclass]
  decide +kernel

end Link

end Stencil
