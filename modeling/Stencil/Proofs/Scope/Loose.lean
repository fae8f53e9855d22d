import Stencil.Proofs.Css.RoundTrip
import Stencil.Scope.Rules
import Stencil.Text.Word

set_option autoImplicit false

/-! # What loose rules mean when they are read again

A loose marker puts the same few characters in front of every selector. They open a bracket and
close it again, so every boundary behind them stays where it is: the confined sheet is read into
the items it was made of, with nothing but the selectors changed (`confineSheet_loose`). A rule
whose first selector begins as something else does is a rule again, since it begins with a
bracket now.
-/

namespace Stencil

open Text

namespace Css

/-! ## Texts in front of selectors -/

/-- An item with each of its selectors changed. -/
def Item.mapSelectors (f : Text → Text) : Item → Item
  | .rule selectors declarations => .rule (selectors.map f) declarations
  | .raw source => .raw source

/-- A character that means nothing to the reading of style sheets. -/
def IsNeutral (c : CodePoint) : Prop := c ∉ "\"'/()[]\x7b\x7d".text

/-- The pieces of an attribute selector with a space behind it. -/
def attributeRow (name : Text) : List Piece :=
  .char '[' :: name.map .char ++ [Piece.char ']', .char ' ']

theorem sourceOf_attributeRow (name : Text) :
    sourceOf (attributeRow name) = [char '['] ++ name ++ [char ']', char ' '] := by
  rw [attributeRow, sourceOf_append, sourceOf_cons, sourceOf_chars]
  rfl

theorem IsNeutral.ne {c : CodePoint} (h : IsNeutral c) {d : CodePoint}
    (hd : d ∈ "\"'/()[]\x7b\x7d".text) : c ≠ d := fun e => h (e ▸ hd)

theorem written_attributeRow {name : Text} (h : ∀ c ∈ name, IsNeutral c) :
    Written (attributeRow name) := by
  have hname : Written (name.map Piece.char) := written_chars fun c hc =>
    ⟨(h c hc).ne (by decide), (h c hc).ne (by decide), (h c hc).ne (by decide)⟩
  have hend : Written [.char ']', .char ' '] :=
    written_chars (s := [char ']', char ' ']) (by decide)
  have hopen : Written (.char '[' :: name.map Piece.char) :=
    .cons (.char (by decide) (by decide)) (fun e => absurd e (by decide)) hname
  exact written_append_iff.2 ⟨hopen, hend, fun _ => by decide⟩

/-- Neutral characters inside a bracket neither close it nor open another one. -/
theorem stackAfter_neutral {name : Text} (h : ∀ c ∈ name, IsNeutral c) :
    stackAfter [']'] (name.map .char) = [char ']'] ∧ IsUncut ',' [']'] (name.map .char) := by
  induction name with
  | nil => exact ⟨rfl, trivial⟩
  | cons c name ih =>
      obtain ⟨hc, hname⟩ := List.forall_mem_cons.1 h
      obtain ⟨hstack, huncut⟩ := ih hname
      have hcloser : closerOf? c = none := by
        unfold closerOf?
        split
        · exact absurd rfl (hc.ne (d := '(') (by decide))
        · exact absurd rfl (hc.ne (d := '[') (by decide))
        · rfl
      have hhead : ¬ [char ']'].head? = some c := by
        simpa using (hc.ne (d := ']') (by decide)).symm
      have hstep : stackStep [']'] (.char c) = [char ']'] := by
        rw [stackStep, hcloser]
        exact if_neg hhead
      rw [List.map_cons]
      refine ⟨?_, by simp, by rw [hstep]; exact huncut⟩
      show stackAfter (stackStep [']'] (.char c)) _ = _
      rw [hstep, hstack]

theorem attributeRow_closes {name : Text} (h : ∀ c ∈ name, IsNeutral c) :
    stackAfter [] (attributeRow name) = [] ∧ IsUncut ',' [] (attributeRow name) := by
  obtain ⟨hstack, huncut⟩ := stackAfter_neutral h
  have hshape : attributeRow name
      = [Piece.char '['] ++ name.map .char ++ [Piece.char ']', .char ' '] := rfl
  have hopen : stackAfter [] [.char '['] = [char ']'] := rfl
  rw [hshape, stackAfter_append, stackAfter_append, isUncut_append, isUncut_append,
    stackAfter_append, hopen, hstack]
  exact ⟨rfl, ⟨⟨by simp, trivial⟩, huncut⟩, by simp, by simp, trivial⟩

/-- A row that closes what it opens can stand in front of each part. -/
theorem AreParts.prepend {sep : CodePoint} {front : List Piece} (huncut : IsUncut sep [] front)
    (hstack : stackAfter [] front = []) {rows : List (List Piece)} (h : AreParts sep [] rows) :
    AreParts sep [] (rows.map (front ++ ·)) := by
  have hrow : ∀ row, IsUncut sep [] row → IsUncut sep [] (front ++ row) := fun row hrow =>
    isUncut_append.2 ⟨huncut, by rwa [hstack]⟩
  generalize hnil : ([] : Text) = stack at h
  induction h with
  | last h =>
      subst hnil
      exact .last (hrow _ h)
  | cons h hafter hrows ih =>
      subst hnil
      refine .cons (hrow _ h) ?_ (ih rfl)
      rw [stackAfter_append, hstack, hafter]

theorem AreSelectors.prepend {name : Text} (hname : ∀ c ∈ name, IsNeutral c)
    {rows : List (List Piece)} (h : AreSelectors rows) :
    AreSelectors (rows.map (attributeRow name ++ ·)) := by
  obtain ⟨hstack, huncut⟩ := attributeRow_closes hname
  have hlast : (attributeRow name).getLast? ≠ some (.char '/') := by
    rw [attributeRow, List.getLast?_append]
    simp
  refine ⟨h.parts.prepend huncut hstack, ?_, ?_, ?_⟩
  · simp only [List.forall_mem_map]
    exact fun row hrow => (written_attributeRow hname).append (h.written row hrow) hlast
  · simp only [List.forall_mem_map]
    intro row hrow
    obtain ⟨htrimmed, hne⟩ := h.trimmed row hrow
    refine ⟨⟨?_, ?_⟩, by simp [attributeRow]⟩
    · rintro p ⟨⟩
      rfl
    · have hrest : (attributeRow name ++ row).getLast? = row.getLast? := by
        rw [List.getLast?_append, List.getLast?_eq_some_getLast hne, Option.some_or]
      rw [hrest]
      exact htrimmed.2
  · simp only [List.forall_mem_map]
    intro row hrow c hc hmem
    have hneutral : ∀ d ∈ name, d ≠ c := fun d hd => (hname d hd).ne (by
      simp only [List.mem_cons, List.not_mem_nil, or_false] at hc
      rcases hc with rfl | rfl <;> decide)
    have hchars : c ≠ '[' ∧ c ≠ ']' ∧ c ≠ ' ' := by
      simp only [List.mem_cons, List.not_mem_nil, or_false] at hc
      rcases hc with rfl | rfl <;> decide
    rcases List.mem_append.1 hmem with hmem | hmem
    · have hname : ¬ c ∈ name := fun hc' => hneutral c hc' rfl
      simp [attributeRow, hchars, hname] at hmem
    · exact h.avoids row hrow c hc hmem

/-- A rule with an attribute in front of each selector is readable. -/
theorem isReadable_prepend {name : Text} (hname : ∀ c ∈ name, IsNeutral c)
    {rows drows : List (List Piece)} (h : AreSelectors rows)
    (hdeclarations : ∀ row ∈ drows, IsDeclaration row)
    (hclosed : ∀ row ∈ drows, stackAfter [] row = []) :
    (Item.rule (rows.map fun row => [char '['] ++ name ++ [char ']', char ' '] ++ sourceOf row)
      (drows.map sourceOf)).IsReadable := by
  have hsource : (rows.map (attributeRow name ++ ·)).map sourceOf
      = rows.map fun row => [char '['] ++ name ++ [char ']', char ' '] ++ sourceOf row := by
    rw [List.map_map]
    refine List.map_congr_left fun row _ => ?_
    rw [Function.comp, sourceOf_append, sourceOf_attributeRow]
  have hfirst : ∀ row ∈ (rows.map (attributeRow name ++ ·)).head?,
      row.head? = some (.char '[') := by
    intro row hrow
    rw [List.head?_map] at hrow
    obtain ⟨whole, -, rfl⟩ := Option.map_eq_some_iff.1 hrow
    rfl
  rw [← hsource]
  refine isReadable_rule (h.prepend hname) (fun row hrow e => ?_) (fun row hrow s e => ?_)
    hdeclarations hclosed
  · rw [hfirst row hrow] at e
    exact absurd e (by decide)
  · rw [hfirst row hrow] at e
    cases e

end Css

/-! ## Loose rules -/

namespace ScopeKind

theorem isNeutral_of_isWord {c : CodePoint} (h : isWord c = true) : Css.IsNeutral c := by
  have hmarks : ∀ d ∈ "\"'/()[]\x7b\x7d".text, isWord d = false := by decide +kernel
  intro hc
  rw [hmarks c hc] at h
  cases h

theorem isNeutral_looseAttr {marker : Text} (h : ∀ c ∈ marker, isWord c = true) :
    ∀ c ∈ Vocabulary.looseAttr marker, Css.IsNeutral c := by
  have hfront : ∀ c ∈ "data-sergey-scope-".text, Css.IsNeutral c := by
    unfold Css.IsNeutral
    decide
  exact List.forall_mem_append.2 ⟨hfront, fun c hc => isNeutral_of_isWord (h c hc)⟩

theorem contains_eq_false_of_infix {s t p : Text} (h : s <:+: t) (ht : contains t p = false) :
    contains s p = false := by
  obtain ⟨a, b, rfl⟩ := h
  rw [contains_eq_false_iff] at ht ⊢
  rintro x y rfl
  exact ht (a ++ x) (y ++ b) (by simp)

theorem looseFront_eq (marker selector : Text) :
    "[data-sergey-scope-".text ++ marker ++ "] ".text ++ selector
      = [char '['] ++ Vocabulary.looseAttr marker ++ [char ']', char ' '] ++ selector := by
  have hopen : "[data-sergey-scope-".text = [char '['] ++ "data-sergey-scope-".text := by decide
  have hclose : "] ".text = [char ']', char ' '] := by decide
  unfold Vocabulary.looseAttr
  -- With the literals out of the way `simp` has only lists to work on.
  generalize "data-sergey-scope-".text = front at *
  generalize "[data-sergey-scope-".text = whole at *
  generalize "] ".text = close at *
  subst hopen hclose
  simp

/-- What loose scoping makes of an item of a sheet has the attribute in front of each selector,
and is read back as it is. -/
theorem confineItem_loose {css marker : Text} {sheet : Css.Stylesheet} {item : Css.Item}
    (h : Css.Stylesheet.parse css = .ok sheet)
    (hexempt : contains css Vocabulary.exemptWord = false) (hitem : item ∈ sheet)
    (hcloses : item.ClosesDeclarations) (hmarker : ∀ c ∈ marker, isWord c = true) :
    ScopeKind.loose.confineItem marker item = item.mapSelectors (fun selector =>
        [char '['] ++ Vocabulary.looseAttr marker ++ [char ']', char ' '] ++ selector) ∧
      (item.mapSelectors fun selector =>
        [char '['] ++ Vocabulary.looseAttr marker ++ [char ']', char ' ']
            ++ selector).IsReadable := by
  obtain ⟨passage, hwf, hyields, hslice⟩ := Css.exists_passage_of_mem h hitem
  cases item with
  | raw source => exact ⟨rfl, Css.isReadable_raw hwf hyields⟩
  | rule selectors declarations =>
      obtain ⟨rows, drows, rfl, rfl, hrows, hdrows, hpart⟩ := Css.exists_rows_of_yields hwf hyields
      constructor
      · rw [confineItem, Css.Item.mapSelectors, List.map_map, List.map_map]
        congr 1
        refine List.map_congr_left fun row hrow => ?_
        -- A selector is a part of the sheet, so it does not hold the word either.
        have hno := contains_eq_false_of_infix ((hpart row hrow).trans hslice) hexempt
        have hkeep : ¬ contains (Css.sourceOf row) Vocabulary.exemptWord = true := by
          simp only [hno, Bool.false_eq_true, not_false_eq_true]
        rw [Function.comp, Function.comp, confineOrExempt, if_neg hkeep]
        simp only [confine]
      · rw [Css.Item.mapSelectors, List.map_map]
        exact Css.isReadable_prepend (isNeutral_looseAttr hmarker) hrows hdrows
          (hcloses.stackAfter_eq_nil hdrows)

/-- **Loose scoping changes the selectors and nothing else.** The confined text of a sheet
without the word that exempts selectors is read into the items of the sheet, in order, with the
marker asked for in front of each selector of each rule. The marker is made of letters and
digits of any script. -/
theorem confineSheet_loose {css marker : Text} {sheet : Css.Stylesheet}
    (h : Css.Stylesheet.parse css = .ok sheet)
    (hexempt : contains css Vocabulary.exemptWord = false)
    (hcloses : ∀ item ∈ sheet, item.ClosesDeclarations)
    (hmarker : ∀ c ∈ marker, isWord c = true) :
    ∃ out, ScopeKind.loose.confineSheet marker css = .ok out ∧
      Css.Stylesheet.parse out = .ok (sheet.map (Css.Item.mapSelectors fun selector =>
        "[data-sergey-scope-".text ++ marker ++ "] ".text ++ selector)) := by
  simp only [looseFront_eq]
  have hitems := fun item (hitem : item ∈ sheet) =>
    confineItem_loose h hexempt hitem (hcloses item hitem) hmarker
  refine ⟨Css.Stylesheet.render (sheet.map (ScopeKind.loose.confineItem marker)), ?_, ?_⟩
  · rw [confineSheet, h]
    rfl
  · rw [List.map_congr_left fun item hitem => (hitems item hitem).1]
    refine Css.parse_render ?_
    simp only [List.forall_mem_map]
    exact fun item hitem => (hitems item hitem).2

/-- A style sheet whose selectors begin as at-rules and comments do, and leave a bracket open. -/
def oddSelectors : Text :=
  [",@a:not(.b, c),/*x*/ d[e\x7b top : 0 ; \x7d", "/* f, g */@media print\x7bp\x7bq:r\x7d\x7d",
    "p > q \x7b\x7d"].flatMap String.text

theorem confineSheet_loose_oddSelectors :
    Css.Stylesheet.parse oddSelectors = .ok
        [.rule ["@a:not(.b, c)".text, "/*x*/ d[e".text] ["top : 0".text],
          .raw "/* f, g */".text, .raw "@media print\x7bp\x7bq:r\x7d\x7d".text,
          .rule ["p > q".text] []] ∧
      contains oddSelectors Vocabulary.exemptWord = false ∧
      ∃ out, ScopeKind.loose.confineSheet "x1".text oddSelectors = .ok out ∧
        Css.Stylesheet.parse out = .ok
          [.rule ["[data-sergey-scope-x1] @a:not(.b, c)".text,
            "[data-sergey-scope-x1] /*x*/ d[e".text] ["top : 0".text],
          .raw "/* f, g */".text, .raw "@media print\x7bp\x7bq:r\x7d\x7d".text,
          .rule ["[data-sergey-scope-x1] p > q".text] []] := by
  have hparse : Css.Stylesheet.parse oddSelectors = .ok
      [.rule ["@a:not(.b, c)".text, "/*x*/ d[e".text] ["top : 0".text],
        .raw "/* f, g */".text, .raw "@media print\x7bp\x7bq:r\x7d\x7d".text,
        .rule ["p > q".text] []] := by decide +kernel
  have hexempt : contains oddSelectors Vocabulary.exemptWord = false := by decide +kernel
  exact ⟨hparse, hexempt,
    confineSheet_loose hparse hexempt (by decide +kernel) (by decide +kernel)⟩

end ScopeKind
end Stencil
