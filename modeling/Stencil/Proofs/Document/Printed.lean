import Stencil.Proofs.Document.Capture

set_option autoImplicit false

/-! # Printed start tags

A start tag that is printed for a name and some attributes is read back as that name and those
attributes, whatever the values hold (`matchesIn_startTagText`). A printed value has no double
quote in it, so it ends where it was meant to end, and every ampersand in it begins a reference
that was printed, so reading the references takes off one level of escaping and no more
(`unescape_escapeValue`).
-/

namespace Stencil.Html

open Text

/-! ## Values -/

theorem escapeValue_cons (c : CodePoint) (s : Text) :
    escapeValue (c :: s) = (if c = '&' then "&amp;".text
      else if c = '"' then "&quot;".text else [c]) ++ escapeValue s := rfl

theorem quote_not_mem_escapeValue (s : Text) : char '"' ∉ escapeValue s := by
  induction s with
  | nil => exact List.not_mem_nil
  | cons c s ih =>
      rw [escapeValue_cons, List.mem_append, not_or]
      refine ⟨?_, ih⟩
      split
      · decide
      · split
        · decide
        · rename_i hc
          simpa using fun e => hc e.symm

theorem unescapeFrom_append (s r : Text) :
    CharRef.unescapeFrom s.length (s ++ r) = CharRef.unescapeFrom 0 r := by
  induction s with
  | nil => rfl
  | cons c s ih => exact ih

section

variable {name value : Text} (hne : name ≠ []) (hlen : name.length < 32)
  (hchars : ∀ c ∈ name, CharRef.isNameChar c = true) (hvalue : CharRef.named? name = some value)

include hne hlen hchars hvalue

theorem reference?_named (s : Text) :
    CharRef.reference? (name ++ char ';' :: s) = some (value, name.length + 1) := by
  have hname : ((name ++ char ';' :: s).take 32).takeWhile CharRef.isNameChar = name := by
    obtain ⟨k, hk⟩ : ∃ k, 32 - name.length = k + 1 := ⟨31 - name.length, by omega⟩
    rw [List.take_append, List.take_of_length_le (by omega), hk, List.take_succ_cons]
    exact takeWhile_append_cons _ hchars (by decide)
  have hclosed : CharRef.closing ((name ++ char ';' :: s).drop name.length) = true := by
    rw [List.drop_left]
    rfl
  have hexpand : CharRef.expandName name true = value := by
    rw [CharRef.expandName, if_pos rfl, hvalue]
  -- a name does not begin like a number
  obtain ⟨c, n, rfl⟩ := List.exists_cons_of_ne_nil hne
  have hc : c ≠ '#' := by
    rintro rfl
    exact absurd (hchars '#' List.mem_cons_self) (by decide)
  unfold CharRef.reference?
  split
  · rename_i e
    exact absurd (List.cons.inj e).1 hc
  · simp only [hname, hclosed, hexpand]
    rfl

/-- A named reference that a semicolon closes is read in one piece. -/
theorem unescape_named (s : Text) :
    CharRef.unescape ('&' :: (name ++ char ';' :: s)) = value ++ CharRef.unescape s := by
  rw [CharRef.unescape, CharRef.unescapeFrom, reference?_named hne hlen hchars hvalue]
  have key := unescapeFrom_append (name ++ [char ';']) s
  rw [List.append_assoc, List.length_append] at key
  exact congrArg (value ++ ·) key

end

theorem unescape_cons_of_ne {c : CodePoint} (s : Text) (h : c ≠ '&') :
    CharRef.unescape (c :: s) = c :: CharRef.unescape s := by
  rw [CharRef.unescape, CharRef.unescapeFrom]
  · rfl
  · exact h

/-- Reading the references of a printed value gives the value back. -/
theorem unescape_escapeValue (s : Text) : CharRef.unescape (escapeValue s) = s := by
  induction s with
  | nil => rfl
  | cons c s ih =>
      rw [escapeValue_cons]
      split
      · rename_i hc
        rw [hc]
        have key : CharRef.unescape ('&' :: ("amp".text ++ char ';' :: escapeValue s))
            = [char '&'] ++ CharRef.unescape (escapeValue s) :=
          unescape_named (by decide) (by decide) (by decide) (by decide +kernel) _
        rw [ih] at key
        exact key
      · rename_i hamp
        split
        · rename_i hc
          rw [hc]
          have key : CharRef.unescape ('&' :: ("quot".text ++ char ';' :: escapeValue s))
              = [char '"'] ++ CharRef.unescape (escapeValue s) :=
            unescape_named (by decide) (by decide) (by decide) (by decide +kernel) _
          rw [ih] at key
          exact key
        · rw [List.singleton_append, unescape_cons_of_ne _ hamp, ih]

/-- A printed value refers to characters by name only. -/
theorem overlongIn?_escapeValue (s : Text) : CharRef.overlongIn? (escapeValue s) = none := by
  induction s with
  | nil => rfl
  | cons c s ih =>
      rw [escapeValue_cons]
      split
      · simpa [CharRef.overlongIn?, startsWith, after?] using ih
      · rename_i hamp
        split
        · simpa [CharRef.overlongIn?, startsWith, after?] using ih
        · rwa [List.singleton_append, overlongIn?_cons_of_ne _ hamp]

/-! ## Start tags -/

/-- The start tag of a name and attributes, with the values as they are printed. -/
def OpenTag.escaped (name : Text) (attrs : Attributes) : OpenTag :=
  ofTable name (attrs.map fun attr => (attr.1, escapeValue attr.2))

namespace OpenTag

variable {name : Text} {attrs : Attributes}

theorem source_escaped (name : Text) (attrs : Attributes) :
    (escaped name attrs).source = startTagText name attrs := by
  have hattrs : (escaped name attrs).attrs.flatMap QuotedAttr.source = attrs.flatMap attrText := by
    rw [escaped, ofTable, List.map_map, List.flatMap_map]
    rfl
  rw [source, inside, trailer, hattrs, startTagText]
  simp [escaped, ofTable]

theorem isDelimited_escaped (hname : isElementName name = true)
    (hattrs : ∀ attr ∈ attrs, IsAttrName attr.1) : (escaped name attrs).IsDelimited where
  name := hname
  attrs := by
    intro a ha
    obtain ⟨attr, hattr, rfl⟩ : ∃ attr ∈ attrs, ⟨[' '], attr.1, escapeValue attr.2⟩ = a := by
      simpa [escaped, ofTable] using ha
    have hn := hattrs attr hattr
    exact ⟨by simp, by simp [IsGap, isIndent], hn.ne_nil, hn.chars,
      quote_not_mem_escapeValue attr.2, overlongIn?_escapeValue attr.2⟩
  tail := Or.inl (by simp [escaped, ofTable, IsGap])

theorem unescapedPairs_escaped (hattrs : ∀ attr ∈ attrs, IsAttrName attr.1) :
    (escaped name attrs).unescapedPairs = attrs := by
  rw [unescapedPairs, escaped, ofTable, List.map_map, List.map_map]
  conv_rhs => rw [← List.map_id attrs]
  refine List.map_congr_left fun attr hattr => ?_
  exact Prod.ext (hattrs attr hattr).lower (unescape_escapeValue attr.2)

end OpenTag

/-! ## Reading a printed element -/

/-- **Round trip of start tags.** An element that is printed without content is the one element
of its name in the text, with its attributes in their order and their values as they were. -/
theorem matchesIn_startTagText {name : Text} {attrs : Attributes}
    (hname : isElementName name = true) (hvoid : name ∉ voidNames) (hraw : name ∉ RawText.names)
    (hattrs : ∀ attr ∈ attrs, isElementName attr.1 = true) (hdistinct : (Table.names attrs).Nodup) :
    matchesIn (startTagText name attrs ++ endTagText name) (.ofName name) none
        = .ok [⟨⟨name, attrs, .origin⟩, startTagText name attrs, [], endTagText name⟩] ∧
      (name.all Selector.isNameChar = true → Selector.parse? name = some (.ofName name)) := by
  refine ⟨?_, parse?_name hname⟩
  have hattrs' : ∀ attr ∈ attrs, IsAttrName attr.1 := fun attr hattr =>
    isAttrName_of_isElementName (hattrs attr hattr)
  have ht := OpenTag.isDelimited_escaped hname hattrs'
  have htname : (OpenTag.escaped name attrs).name = name := rfl
  have hopen : (OpenTag.escaped name attrs).closesItself = false := rfl
  -- behind the start tag the text is read as markup, so the end tag is seen
  have hmode : (OpenTag.escaped name attrs).modeAfter = .markup := by
    have hraw' : RawText.names.elem name = false := by simpa using hraw
    rw [OpenTag.modeAfter, htname, hraw', Bool.and_false]
    rfl
  rw [← OpenTag.source_escaped]
  have hread : ReadsAs false .markup .markup .origin
      ((OpenTag.escaped name attrs).source ++ endTagText name) [⟨name, attrs, .origin⟩] [] := by
    have htag := readsAs_of_next (by simp [OpenTag.source])
      (next_delimitedTag ht false .origin (endTagText name ++ []))
    rw [hmode, OpenTag.unescapedPairs_escaped hattrs'] at htag
    have key := htag.append (readsAs_endTag hname false _ [])
    simpa [Token.opened?, htname, Table.ofPairs_eq_self hdistinct] using key
  -- its region is all of the text, with nothing inside
  have hregion := region?_delimited ht hopen hvoid hraw
    (isBalanced_of_not_mem _ (s := []) (by simp)) []
  rw [List.nil_append, List.append_nil] at hregion
  refine matchesIn_of_readsAs hread ?_ none
  have hsel : (Selector.ofName name).selects ⟨name, attrs, .origin⟩ = true := by
    simp [Selector.ofName, Selector.selects, sameName]
  have hmatch := match?_of_region? [] ⟨name, attrs, .origin⟩ rfl rfl hregion
  rw [List.filter_cons_of_pos hsel, List.filter_nil, List.map_singleton]
  exact congrArg ([·]) hmatch

/-- Attributes whose values look like markup and like references. -/
def trickyAttrs : Attributes :=
  [("title".text, "a \"b\" > </x-note>\n&amp;quot;".text),
    ("data-2".text, "<x-note>&#39;".text), ("class".text, [])]

theorem matchesIn_startTagText_trickyAttrs :
    startTagText "x-note".text trickyAttrs
        = ("<x-note title=\"a &quot;b&quot; > </x-note>\n&amp;amp;quot;\"".text ++
          " data-2=\"<x-note>&amp;#39;\" class=\"\">".text) ∧
      matchesIn (startTagText "x-note".text trickyAttrs ++ endTagText "x-note".text)
          (.ofName "x-note".text) none
        = .ok [⟨⟨"x-note".text, trickyAttrs, .origin⟩, startTagText "x-note".text trickyAttrs, [],
            endTagText "x-note".text⟩] ∧
      Selector.parse? "x-note".text = some (.ofName "x-note".text) := by
  obtain ⟨hmatches, hparse⟩ := matchesIn_startTagText
    (show isElementName "x-note".text = true by decide) (by decide) (by decide)
    (show ∀ attr ∈ trickyAttrs, isElementName attr.1 = true by decide) (by decide)
  exact ⟨by decide, hmatches, hparse (by decide)⟩

end Stencil.Html
