import Stencil.Proofs.Source.SelfClosing

set_option autoImplicit false

/-! # Writing out end tags

In markup that is given tag by tag, exactly the custom elements that close themselves get an end
tag, and everything else keeps every character (`expandSelfClosing_markup`). What is found from the
left is found at the true borders of the tags: no text and no value holds a `<`, and the search for
the end of a tag passes over the values, whatever slashes and angle brackets are in them.
-/

namespace Stencil.Html

open Text

/-! ## Pieces of markup -/

/-- A piece of markup: running text, a start tag, which may close itself, or an end tag. -/
inductive Lexeme where
  | text (s : Text)
  | tag (t : OpenTag) (closed : Bool)
  | close (name gap : Text)
  deriving DecidableEq, Repr

namespace Lexeme

/-- A piece of markup as it is written. The slash of a tag that closes itself stands behind the
blanks of its tail. -/
def source : Lexeme → Text
  | text s => s
  | tag t closed => [char '<'] ++ t.inside ++ (if closed then [char '/'] else []) ++ [char '>']
  | close name gap => [char '<', char '/'] ++ name ++ gap ++ [char '>']

/-- A piece of markup with its end tag written out: only a custom element that closes itself
changes. -/
def expand : Lexeme → List Lexeme
  | tag t true =>
      if t.name.elem (char '-') then [tag { t with tail := [] } false, close t.name []]
      else [tag t true]
  | x => [x]

end Lexeme

/-- Some pieces of markup as they are written one after the other. -/
def markupOf (xs : List Lexeme) : Text := xs.flatMap Lexeme.source

/-- An attribute behind blanks of any kind, between double quotes, with a value that opens no
tag. -/
structure QuotedAttr.IsWide (a : QuotedAttr) : Prop where
  gap_ne_nil : a.gap ≠ []
  gap : ∀ c ∈ a.gap, isBlank c = true
  name_ne_nil : a.name ≠ []
  name : ∀ c ∈ a.name, isQuotedAttrChar c = true
  value_lt : char '<' ∉ a.value
  value_quote : char '"' ∉ a.value

instance : DecidablePred QuotedAttr.IsWide := fun a =>
  decidable_of_iff
    (a.gap ≠ [] ∧ (∀ c ∈ a.gap, isBlank c = true) ∧ a.name ≠ [] ∧
      (∀ c ∈ a.name, isQuotedAttrChar c = true) ∧ char '<' ∉ a.value ∧ char '"' ∉ a.value)
    ⟨fun ⟨h₁, h₂, h₃, h₄, h₅, h₆⟩ => ⟨h₁, h₂, h₃, h₄, h₅, h₆⟩,
      fun ⟨h₁, h₂, h₃, h₄, h₅, h₆⟩ => ⟨h₁, h₂, h₃, h₄, h₅, h₆⟩⟩

/-- A start tag with blanks of any kind in it. -/
structure OpenTag.IsWide (t : OpenTag) : Prop where
  name : isElementName t.name = true
  attrs : ∀ a ∈ t.attrs, a.IsWide
  tail : ∀ c ∈ t.tail, isBlank c = true

instance : DecidablePred OpenTag.IsWide := fun t =>
  decidable_of_iff
    (isElementName t.name = true ∧ (∀ a ∈ t.attrs, a.IsWide) ∧ ∀ c ∈ t.tail, isBlank c = true)
    ⟨fun ⟨h₁, h₂, h₃⟩ => ⟨h₁, h₂, h₃⟩, fun ⟨h₁, h₂, h₃⟩ => ⟨h₁, h₂, h₃⟩⟩

/-- A piece of markup that is what it seems to be: the text opens no tag, and the names and the
blanks of a tag are such. -/
def Lexeme.WellFormed : Lexeme → Prop
  | text s => char '<' ∉ s
  | tag t _ => t.IsWide
  | close name gap => isElementName name = true ∧ ∀ c ∈ gap, isBlank c = true

instance : DecidablePred Lexeme.WellFormed
  | .text s => inferInstanceAs (Decidable (char '<' ∉ s))
  | .tag t _ => inferInstanceAs (Decidable t.IsWide)
  | .close name gap =>
      inferInstanceAs (Decidable (isElementName name = true ∧ ∀ c ∈ gap, isBlank c = true))

/-! ## Blanks in a tag -/

theorem ne_of_isBlank {c d : CodePoint} (h : isBlank c = true) (hd : isBlank d = false) :
    c ≠ d := by
  rintro rfl
  rw [h] at hd
  cases hd

/-- The code points of the blanks. -/
def blankCodes : List Nat :=
  [0x09, 0x0A, 0x0B, 0x0C, 0x0D, 0x1C, 0x1D, 0x1E, 0x1F, 0x20, 0x85, 0xA0, 0x1680, 0x2000, 0x2001,
    0x2002, 0x2003, 0x2004, 0x2005, 0x2006, 0x2007, 0x2008, 0x2009, 0x200A, 0x2028, 0x2029, 0x202F,
    0x205F, 0x3000]

theorem mem_blankCodes {c : CodePoint} (h : isBlank c = true) : c.toNat ∈ blankCodes := by
  simp only [isBlank, Bool.or_eq_true, Bool.and_eq_true, decide_eq_true_eq, beq_iff_eq] at h
  simp only [blankCodes, List.mem_cons, List.not_mem_nil, or_false]
  omega

theorem not_isMarkNameChar_of_isBlank {c : CodePoint} (h : isBlank c = true) :
    isMarkNameChar c = false := by
  have hcodes : ∀ n ∈ blankCodes, isMarkNameChar (CodePoint.ofNat n) = false := by decide +kernel
  have key := hcodes c.toNat (mem_blankCodes h)
  rwa [CodePoint.ofNat_toNat] at key

/-- Blanks are passed over by the search for the end of a tag. -/
theorem isPassedOver_blank {s : Text} (h : ∀ c ∈ s, isBlank c = true) : IsPassedOver s :=
  isPassedOver_of_forall fun c hc =>
    ⟨ne_of_isBlank (h c hc) (by decide), ne_of_isBlank (h c hc) (by decide),
      ne_of_isBlank (h c hc) (by decide)⟩

/-! ## The search for a slash at the end of a tag -/

theorem cutTagEnd?_eq_nil {quote : Option CodePoint} {s rest : Text}
    (h : cutTagEnd? quote s = some ([], rest)) : quote = none ∧ s = char '>' :: rest := by
  fun_cases cutTagEnd? quote s with
  | case1 => cases h
  | case2 c s q => simp [cutTagEnd?] at h
  | case3 s =>
      obtain rfl : s = rest := by simpa [cutTagEnd?] using h
      exact ⟨rfl, rfl⟩
  | case4 c s hc => simp [cutTagEnd?, hc] at h

/-- Where a character in front of a cut goes: it is the last one of the front, or there are more. -/
theorem cons_of_map_eq_some {o : Option (Text × Text)} {c d : CodePoint} {front rest : Text}
    (h : o.map (fun (front, rest) => (c :: front, rest)) = some (front ++ [d], rest)) :
    (front = [] ∧ c = d ∧ o = some ([], rest)) ∨
      ∃ tail, front = c :: tail ∧ o = some (tail ++ [d], rest) := by
  obtain ⟨⟨front', rest'⟩, ho, e⟩ := Option.map_eq_some_iff.1 h
  simp only [Prod.mk.injEq] at e
  obtain ⟨e, rfl⟩ := e
  cases front with
  | nil =>
      obtain ⟨rfl, rfl⟩ := List.cons.inj e
      exact Or.inl ⟨rfl, rfl, ho⟩
  | cons f tail =>
      obtain ⟨rfl, rfl⟩ := List.cons.inj e
      exact Or.inr ⟨tail, rfl, ho⟩

/-- A tag with a slash right in front of its end closes itself. -/
theorem cutSelfClosing?_of_cutTagEnd? {quote : Option CodePoint} (hquote : quote ≠ some (char '/'))
    {s front rest : Text} (h : cutTagEnd? quote s = some (front ++ [char '/'], rest)) :
    cutSelfClosing? quote s = some (front, rest) := by
  fun_induction cutSelfClosing? quote s generalizing front with
  | case1 => cases h
  | case2 c s q ih =>
      rw [cutTagEnd?] at h
      rcases cons_of_map_eq_some h with ⟨-, rfl, hend⟩ | ⟨tail, rfl, htail⟩
      · -- the slash would stand inside the quotes
        have hq : ¬ '/' = q := fun e => hquote (e ▸ rfl)
        rw [if_neg hq] at hend
        cases (cutTagEnd?_eq_nil hend).1
      · have hnext : (if c = q then none else some q) ≠ some (char '/') := by
          split
          exacts [by simp, hquote]
        rw [ih hnext htail]
        rfl
  | case3 s => simp [cutTagEnd?] at h
  | case4 c s hc hslash =>
      simp only [Bool.and_eq_true, decide_eq_true_eq, beq_iff_eq] at hslash
      obtain ⟨rfl, hhead⟩ := hslash
      obtain ⟨t, rfl⟩ := List.head?_eq_some_iff.1 hhead
      obtain ⟨rfl, rfl⟩ : front = [] ∧ t = rest := by simpa [cutTagEnd?] using h
      rfl
  | case5 c s hc hslash ih =>
      rw [cutTagEnd?, if_neg hc] at h
      rcases cons_of_map_eq_some h with ⟨-, rfl, hend⟩ | ⟨tail, rfl, htail⟩
      · obtain ⟨-, rfl⟩ := cutTagEnd?_eq_nil hend
        exact absurd rfl hslash
      · have hnext : (if c = '"' || c = '\'' then some c else none) ≠ some (char '/') := by
          split
          · rename_i hq
            intro e
            rw [Option.some.inj e] at hq
            exact absurd hq (by decide)
          · simp
        rw [ih hnext htail]
        rfl

/-! ## Tags -/

namespace OpenTag.IsWide

variable {t : OpenTag} (h : t.IsWide)

include h

theorem isPassedOver_trailer : IsPassedOver t.trailer := by
  have hattrs : IsPassedOver (t.attrs.flatMap QuotedAttr.source) := by
    refine isPassedOver_flatMap fun a ha => ?_
    have hw := h.attrs a ha
    simpa [QuotedAttr.source] using
      (isPassedOver_blank hw.gap).append (isPassedOver_assignment hw.name hw.value_quote)
  exact hattrs.append (isPassedOver_blank h.tail)

theorem lt_not_mem : char '<' ∉ t.inside := by
  have hattr : ∀ a ∈ t.attrs, char '<' ∉ a.source := by
    intro a ha hm
    have hw := h.attrs a ha
    simp only [QuotedAttr.source, List.mem_append, List.mem_cons, List.not_mem_nil, or_false] at hm
    rcases hm with (((hm | hm) | hm | hm) | hm) | hm
    · exact ne_of_isBlank (hw.gap _ hm) (by decide) rfl
    · exact absurd (hw.name _ hm) (by decide)
    · cases hm
    · cases hm
    · exact hw.value_lt hm
    · cases hm
  intro hm
  simp only [OpenTag.inside, OpenTag.trailer, List.mem_append, List.mem_flatMap] at hm
  rcases hm with hm | ⟨a, ha, hm⟩ | hm
  · exact not_mem_of_isElementName h.name (by decide) hm
  · exact hattr a ha hm
  · exact ne_of_isBlank (h.tail _ hm) (by decide) rfl

theorem endsWith_trailer : endsWith t.trailer ['/'] = false := by
  rcases List.eq_nil_or_concat t.tail with ht | ⟨g, c, ht⟩
  · rcases flatMap_source_eq t.attrs with ha | ⟨s, ha⟩
    · rw [OpenTag.trailer, ha, ht]
      rfl
    · rw [OpenTag.trailer, ha, ht, List.append_nil, endsWith_append_singleton]
      rfl
  · have hc := h.tail c (by simp [ht])
    rw [OpenTag.trailer, ht, List.concat_eq_append, ← List.append_assoc, endsWith_append_singleton]
    simpa using (ne_of_isBlank hc (by decide)).symm

end OpenTag.IsWide

/-- The end of a start tag, with a slash or without one. -/
def tagEnd (closed : Bool) : Text := if closed then ['/', '>'] else ['>']

theorem Lexeme.source_tag (t : OpenTag) (closed : Bool) :
    (tag t closed).source = char '<' :: (t.inside ++ tagEnd closed) := by
  cases closed <;> simp [source, tagEnd]

namespace OpenTag.IsWide

variable {t : OpenTag} (h : t.IsWide)

include h

/-- Reading the name of a tag stops where the name ends. -/
theorem takeWhile_isMarkNameChar (closed : Bool) (r : Text) :
    (t.inside ++ tagEnd closed ++ r).takeWhile isMarkNameChar = t.name := by
  -- behind the name stands a blank, a slash or the end of the tag
  obtain ⟨c, s, hs, hc⟩ : ∃ c s, t.trailer ++ tagEnd closed ++ r = c :: s
      ∧ isMarkNameChar c = false := by
    cases ha : t.attrs with
    | nil =>
        cases ht : t.tail with
        | nil => cases closed <;> exact ⟨_, _, by rw [OpenTag.trailer, ha, ht]; rfl, by decide⟩
        | cons c g =>
            exact ⟨c, _, by rw [OpenTag.trailer, ha, ht]; rfl,
              not_isMarkNameChar_of_isBlank (h.tail c (by simp [ht]))⟩
    | cons a as =>
        have hw := h.attrs a (by simp [ha])
        obtain ⟨c, g, hg⟩ := List.exists_cons_of_ne_nil hw.gap_ne_nil
        have hcons : ∃ s, t.trailer ++ tagEnd closed ++ r = c :: s :=
          ⟨_, by simp only [OpenTag.trailer, ha, List.flatMap_cons, QuotedAttr.source, hg]; rfl⟩
        obtain ⟨s, hs⟩ := hcons
        exact ⟨c, s, hs, not_isMarkNameChar_of_isBlank (hw.gap c (by simp [hg]))⟩
  rw [OpenTag.inside, List.append_assoc, List.append_assoc, ← List.append_assoc t.trailer, hs]
  exact takeWhile_append_cons s (isMarkNameChar_of_mem h.name) hc

/-- A tag is read as a custom element that closes itself when it is one. -/
theorem readSelfClosing? (closed : Bool) (r : Text) :
    Html.readSelfClosing? ((Lexeme.tag t closed).source ++ r)
      = if closed && t.name.elem (char '-') then some (t.name, t.trailer, r) else none := by
  obtain ⟨c, n, hn, hc⟩ := exists_cons_of_isElementName h.name
  have hhead : (t.inside ++ tagEnd closed ++ r).head? = some c := by simp [OpenTag.inside, hn]
  have hdrop : (t.inside ++ tagEnd closed ++ r).drop t.name.length
      = t.trailer ++ (tagEnd closed ++ r) := by
    rw [OpenTag.inside, List.append_assoc, List.append_assoc, List.drop_left]
  have hcut : cutSelfClosing? none (t.trailer ++ (tagEnd closed ++ r))
      = if closed then some (t.trailer, r) else none := by
    cases closed with
    | true =>
        have hslash : IsPassedOver ['/'] := isPassedOver_of_forall (by decide)
        have hend := (h.isPassedOver_trailer.append hslash) ('>' :: r)
        rw [show cutTagEnd? none ('>' :: r) = some ([], r) by simp [cutTagEnd?],
          Option.map_some, List.append_nil] at hend
        rw [if_pos rfl]
        exact cutSelfClosing?_of_cutTagEnd? (by simp) (by simpa [tagEnd] using hend)
    | false =>
        have hend := h.isPassedOver_trailer ('>' :: r)
        rw [show cutTagEnd? none ('>' :: r) = some ([], r) by simp [cutTagEnd?],
          Option.map_some, List.append_nil] at hend
        exact cutSelfClosing?_eq_none hend h.endsWith_trailer
  rw [Lexeme.source_tag, List.cons_append, Html.readSelfClosing?]
  simp only [h.takeWhile_isMarkNameChar, hhead, Option.map_some, Option.getD_some, hc,
    Bool.true_and, hdrop, hcut]
  cases closed <;> simp

end OpenTag.IsWide

/-! ## Markup -/

theorem expandFrom_append (s r : Text) : expandFrom s.length (s ++ r) = expandFrom 0 r := by
  induction s with
  | nil => rfl
  | cons c s ih => exact ih

/-- What has been read as a piece of markup is written out, and the rest is left to do. -/
theorem Lexeme.WellFormed.expandFrom {x : Lexeme} (h : x.WellFormed) (r : Text) :
    Html.expandFrom 0 (x.source ++ r) = markupOf x.expand ++ Html.expandFrom 0 r := by
  cases x with
  | text s =>
      simpa [markupOf, expand, source] using expandFrom_of_not_mem h r
  | close name gap =>
      obtain ⟨hname, hgap⟩ := h
      have hlt : char '<' ∉ char '/' :: (name ++ gap ++ [char '>']) := by
        simp only [List.mem_cons, List.mem_append, List.not_mem_nil, or_false, not_or]
        exact ⟨by decide, ⟨not_mem_of_isElementName hname (by decide),
          fun hm => ne_of_isBlank (hgap _ hm) (by decide) rfl⟩, by decide⟩
      have key := expandFrom_tag hlt r (by rfl)
      simpa [markupOf, expand, source] using key
  | tag t closed =>
      have ht : t.IsWide := h
      have hread := ht.readSelfClosing? closed r
      by_cases hcustom : (closed && t.name.elem (char '-')) = true
      · -- the whole tag is passed over, and the end tag is put behind it
        obtain ⟨rfl, hdash⟩ : closed = true ∧ t.name.elem (char '-') = true := by
          simpa using hcustom
        rw [if_pos hcustom] at hread
        have hskip : (t.inside ++ tagEnd true ++ r).length - r.length
            = (t.inside ++ tagEnd true).length := by
          rw [List.length_append, Nat.add_sub_cancel]
        rw [source_tag, List.cons_append] at hread ⊢
        rw [Html.expandFrom, hread]
        simp only
        rw [hskip, expandFrom_append, trimRight_trailer ht.tail, expand, if_pos hdash]
        simp [markupOf, source, endTagText, OpenTag.inside, OpenTag.trailer]
      · -- the tag is kept, and no other tag begins inside it
        have hexpand : (tag t closed).expand = [tag t closed] := by
          cases closed with
          | true => exact if_neg (by simpa using hcustom)
          | false => rfl
        rw [if_neg hcustom] at hread
        have hlt : char '<' ∉ t.inside ++ tagEnd closed := by
          rw [List.mem_append, not_or]
          exact ⟨ht.lt_not_mem, by cases closed <;> decide⟩
        rw [source_tag] at hread
        have key := expandFrom_tag hlt r hread
        rw [hexpand, markupOf, List.flatMap_cons, List.flatMap_nil, List.append_nil, source_tag]
        exact key

theorem Lexeme.WellFormed.of_mem_expand {x y : Lexeme} (h : x.WellFormed) (hy : y ∈ x.expand) :
    y.WellFormed := by
  cases x with
  | text s => rwa [List.mem_singleton.1 hy]
  | close name gap => rwa [List.mem_singleton.1 hy]
  | tag t closed =>
      have ht : t.IsWide := h
      cases closed with
      | false => rwa [List.mem_singleton.1 hy]
      | true =>
          rw [expand] at hy
          split at hy
          · simp only [List.mem_cons, List.not_mem_nil, or_false] at hy
            rcases hy with rfl | rfl
            · exact OpenTag.IsWide.mk ht.name ht.attrs fun c hc => absurd hc List.not_mem_nil
            · exact ⟨ht.name, by simp⟩
          · rwa [List.mem_singleton.1 hy]

/-- What has its end tag written out is left as it is. -/
theorem Lexeme.expand_of_mem_expand {x y : Lexeme} (hy : y ∈ x.expand) : y.expand = [y] := by
  cases x with
  | text s => rw [List.mem_singleton.1 hy]; rfl
  | close name gap => rw [List.mem_singleton.1 hy]; rfl
  | tag t closed =>
      cases closed with
      | false => rw [List.mem_singleton.1 hy]; rfl
      | true =>
          rw [expand] at hy
          split at hy
          · simp only [List.mem_cons, List.not_mem_nil, or_false] at hy
            rcases hy with rfl | rfl <;> rfl
          · rename_i hdash
            rw [List.mem_singleton.1 hy]
            exact if_neg hdash

theorem expandSelfClosing_markupOf {xs : List Lexeme} (h : ∀ x ∈ xs, x.WellFormed) :
    expandSelfClosing (markupOf xs) = markupOf (xs.flatMap Lexeme.expand) := by
  rw [expandSelfClosing]
  induction xs with
  | nil => rfl
  | cons x xs ih =>
      have happend : ∀ ys : List Lexeme, markupOf (x :: ys) = x.source ++ markupOf ys := fun ys =>
        List.flatMap_cons
      rw [happend, (h x List.mem_cons_self).expandFrom,
        ih fun y hy => h y (List.mem_cons_of_mem x hy), List.flatMap_cons, markupOf, markupOf,
        markupOf, List.flatMap_append]

/-- **Writing out end tags.** In markup made of texts without `<`, start tags, end tags and tags
that close themselves, every custom element that closes itself gets its end tag, and all else stays
as it is; doing so again changes nothing more. -/
theorem expandSelfClosing_markup {xs : List Lexeme} (h : ∀ x ∈ xs, x.WellFormed) :
    expandSelfClosing (markupOf xs) = markupOf (xs.flatMap Lexeme.expand) ∧
      expandSelfClosing (expandSelfClosing (markupOf xs)) = expandSelfClosing (markupOf xs) := by
  have hexpanded : ∀ y ∈ xs.flatMap Lexeme.expand, y.WellFormed := by
    intro y hy
    obtain ⟨x, hx, hy⟩ := List.mem_flatMap.1 hy
    exact (h x hx).of_mem_expand hy
  have hagain : (xs.flatMap Lexeme.expand).flatMap Lexeme.expand = xs.flatMap Lexeme.expand := by
    rw [List.flatMap_assoc]
    refine List.flatMap_congr fun x _ => ?_
    conv_rhs => rw [← List.flatMap_singleton' x.expand]
    exact List.flatMap_congr fun y hy => Lexeme.expand_of_mem_expand hy
  refine ⟨expandSelfClosing_markupOf h, ?_⟩
  rw [expandSelfClosing_markupOf h, expandSelfClosing_markupOf hexpanded, hagain]

/-- Tags that close themselves, among others and with slashes in their values. -/
def mixedTags : List Lexeme :=
  [.text "a > 'b ".text,
    .tag ⟨"x-a".text, [⟨" ".text, "k".text, "/>'".text⟩], "\n ".text⟩ true,
    .tag ⟨"br".text, [], " ".text⟩ true, .tag ⟨"x-b".text, [], []⟩ true,
    .tag ⟨"x-c".text, [⟨"\x0b".text, "k".text, "a/".text⟩], []⟩ false,
    .close "x-c".text " ".text]

theorem expandSelfClosing_markup_mixedTags :
    markupOf mixedTags
        = "a > 'b <x-a k=\"/>'\"\n /><br /><x-b/><x-c\x0bk=\"a/\"></x-c >".text ∧
      expandSelfClosing (markupOf mixedTags)
        = "a > 'b <x-a k=\"/>'\"></x-a><br /><x-b></x-b><x-c\x0bk=\"a/\"></x-c >".text ∧
      expandSelfClosing (expandSelfClosing (markupOf mixedTags))
        = expandSelfClosing (markupOf mixedTags) := by
  obtain ⟨hexpand, hagain⟩ :=
    expandSelfClosing_markup (show ∀ x ∈ mixedTags, x.WellFormed by decide +kernel)
  refine ⟨by decide +kernel, ?_, hagain⟩
  rw [hexpand]
  decide +kernel

end Stencil.Html
