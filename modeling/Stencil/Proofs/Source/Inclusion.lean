import Stencil.Proofs.Source.Names
import Stencil.Proofs.Source.SelfClosing
import Stencil.Proofs.Template.Wrapper

set_option autoImplicit false

/-! # Fragments without the vocabulary

A fragment that never says `sergey` has nothing to scope, so it only gets a wrapper. Clearing
then takes out the start tag of the wrapper and the end tag that is counted for it. That gives the
fragment back if the end tag that was added is the one that is counted, as it is behind a fragment
whose elements of that name are closed. In a fragment that opens one and leaves it open, the count
goes wrong: the end tag of the wrapper is taken for that of the element.
-/

namespace Stencil

open Text Html Vocabulary

/-! ## The word -/

/-- The word that every name of the vocabulary holds. -/
def vocabularyWord : Text := "sergey".text

/-- Whether a text holds the word, in any mixture of small letters and capitals. -/
def MentionsVocabulary (s : Text) : Prop := vocabularyWord <:+: s.map CodePoint.toLower

instance : DecidablePred MentionsVocabulary := fun s =>
  inferInstanceAs (Decidable (vocabularyWord <:+: s.map CodePoint.toLower))

theorem vocabularyWord_infix_wrapperAttr : vocabularyWord <:+: wrapperAttr := by decide

theorem vocabularyWord_infix_scopingAttr : vocabularyWord <:+: scopingAttr := by decide

/-- A piece that is held by two texts with a character between them is held by one of them, when
it lacks the character. -/
theorem infix_of_infix_append_cons {w s r : Text} {c : CodePoint} (hc : c ∉ w)
    (h : w <:+: s ++ c :: r) : w <:+: s ∨ w <:+: r := by
  induction s with
  | nil =>
      rw [List.nil_append, List.infix_cons_iff] at h
      rcases h with h | h
      · cases w with
        | nil => exact Or.inl List.nil_infix
        | cons x w => exact absurd ((List.cons_prefix_cons.1 h).1 ▸ List.mem_cons_self) hc
      · exact Or.inr h
  | cons x s ih =>
      rw [List.cons_append, List.infix_cons_iff] at h
      rcases h with h | h
      · rcases List.prefix_or_prefix_of_prefix h (List.prefix_append (x :: s) (c :: r)) with
          hw | ⟨w', rfl⟩
        · exact Or.inl hw.isInfix
        · -- the piece would go on with the character
          cases w' with
          | nil => exact Or.inl (by simp)
          | cons y w' =>
              have hy := List.prefix_append_right_inj (x :: s) |>.1 h
              exact absurd (by simp [(List.cons_prefix_cons.1 hy).1]) hc
      · exact (ih h).imp_left fun h => h.trans (List.suffix_cons x s).isInfix

theorem not_mentionsVocabulary_append_endTagText {s name : Text} (hs : ¬ MentionsVocabulary s)
    (hname : ¬ MentionsVocabulary (char '/' :: name ++ [char '>'])) :
    ¬ MentionsVocabulary (s ++ endTagText name) := by
  intro h
  have hsource : (s ++ endTagText name).map CodePoint.toLower
      = s.map CodePoint.toLower ++ char '<' ::
          (char '/' :: name ++ [char '>']).map CodePoint.toLower := by
    simp [endTagText]
  rw [MentionsVocabulary, hsource] at h
  exact (infix_of_infix_append_cons (by decide) h).elim hs hname

theorem not_has_of_not_mentionsVocabulary {s attr : Text} {attrs : Attributes}
    (hs : ¬ MentionsVocabulary s) (hattr : vocabularyWord <:+: attr)
    (hnames : ∀ name, attrs.has name = true → NameStandsIn s name) : attrs.has attr = false := by
  rw [Bool.eq_false_iff]
  intro hhas
  obtain ⟨n, hn, rfl⟩ := hnames attr hhas
  have hword := infix_of_lower (by decide) (by decide) hattr
  exact hs (hword.trans (hn.map CodePoint.toLower))

/-- No start tag of a source without the word has an attribute of the vocabulary. -/
theorem hasAttr_of_not_mentionsVocabulary {s attr : Text} {tag : Tag} (hs : ¬ MentionsVocabulary s)
    (hattr : vocabularyWord <:+: attr) (hsmall : attr.map CodePoint.toLower = attr)
    (hnames : ∀ name, tag.attrs.has name = true → NameStandsIn s name) :
    Selector.hasAttr tag attr = false := by
  rw [Selector.hasAttr, List.any_eq_false]
  rintro ⟨name, value⟩ hmem (hsame : sameName attr name = true)
  have hhas : tag.attrs.has name = true := Table.has_iff.2 (List.mem_map.2 ⟨_, hmem, rfl⟩)
  obtain ⟨n, -, rfl⟩ := hnames name hhas
  rw [sameName_iff hsmall (map_toLower_lower n), decide_eq_true_iff] at hsame
  rw [not_has_of_not_mentionsVocabulary hs (hsame ▸ hattr) hnames] at hhas
  cases hhas

/-! ## Accepted sources -/

/-- Whether a source is read as a tree. -/
def IsAccepted (source : Text) : Prop := (Node.ofSource source).isOk = true

instance : DecidablePred IsAccepted := fun source =>
  inferInstanceAs (Decidable ((Node.ofSource source).isOk = true))

theorem IsAccepted.exists_nodes {source : Text} (h : IsAccepted source) :
    ∃ nodes, Node.ofSource source = .ok nodes := by
  cases hnodes : Node.ofSource source with
  | ok nodes => exact ⟨nodes, rfl⟩
  | error e => rw [IsAccepted, hnodes] at h; cases h

theorem matchesIn_eq_nil {source : Text} {nodes : List Node} {sel : Selector}
    (hnodes : Node.ofSource source = .ok nodes)
    (h : ∀ tag ∈ tagsOf nodes, sel.selects tag = false) : matchesIn source sel none = .ok [] := by
  have hfound : (elementsOf nodes).filter (sel.selects ·.tag) = [] := by
    rw [List.filter_eq_nil_iff]
    exact fun e he => by simpa using h e.tag (List.mem_map.2 ⟨e, he, rfl⟩)
  rw [matchesIn, hnodes]
  split
  · rfl
  · simp only [hfound]
    rfl

/-- Nothing is replaced where nothing is found, if no name is looked for outside the tree. -/
theorem replaceMatches_of_matchesIn_nil {m : Type → Type} [Monad m] [LawfulMonad m]
    {fn : Match → m Text} {part : Part} {sel : Selector} {limit : Option Int} {source : Text}
    (h : matchesIn source sel limit = .ok []) (hname : sel.bareName? = none) :
    replaceMatches fn part sel limit source = pure source := by
  rw [replaceMatches_eq_patch (fun _ => hname) h, patch, List.foldlM_nil, ExceptT.lift_pure]

/-! ## Scoping -/

namespace Scope

/-- A fragment without the word only gets a wrapper. -/
theorem scopeStylesOf_of_not_mentionsVocabulary {s : Text} (hs : ¬ MentionsVocabulary s)
    (hok : IsAccepted s) (markers : Markers) :
    scopeStylesOf .empty markers s = pure (Wrapper.around s, .empty) := by
  obtain ⟨nodes, hnodes⟩ := hok.exists_nodes
  have hnames : ∀ tag ∈ tagsOf nodes, ∀ name, tag.attrs.has name = true → NameStandsIn s name :=
    fun tag htag name => nameStandsIn_of_mem_tagsOf hnodes htag
  have hsheets : matchesIn s scopedSheets none = .ok [] := by
    refine matchesIn_eq_nil hnodes fun tag htag => ?_
    have hattr := hasAttr_of_not_mentionsVocabulary hs vocabularyWord_infix_scopingAttr (by decide)
      (hnames tag htag)
    simp [Selector.selects, scopedSheets, hattr]
  have hunwrapped : Wrapper.encloses s = .ok false :=
    encloses_of_unwrapped hnodes fun tag htag =>
      not_has_of_not_mentionsVocabulary hs vocabularyWord_infix_wrapperAttr (hnames tag htag)
  exact scopeStylesOf_of_confined (replaceMatches_of_matchesIn_nil hsheets (by decide)) hunwrapped

end Scope

/-! ## The end tag of a wrapper -/

/-- Whether the end tag that is put behind a text is the one that is counted for a start tag in
front of it. -/
def IsCountedBehind (name s : Text) : Prop :=
  (endMark? name 0 (marks (s ++ endTagText name))).map Mark.first = some s.length

instance (name s : Text) : Decidable (IsCountedBehind name s) :=
  inferInstanceAs (Decidable (_ = _))

/-- A text that leaves the count of open elements as it is may stand in front of the end tag. -/
theorem IsBalanced.isCountedBehind {name s : Text} (hname : isElementName name = true)
    (h : IsBalanced name s) : IsCountedBehind name s := by
  have hmark := endMark?_content hname h []
  rw [List.append_nil] at hmark
  exact congrArg (Option.map Mark.first) hmark

/-- What follows a start tag of a name, without the end tag that is counted for it. -/
def withoutEnd (name s : Text) : Text :=
  match endMark? name 0 (marks s) with
  | some mark => s.take mark.first ++ s.drop mark.stop
  | none => s

/-- Every mark is read where it begins. -/
theorem readMark?_of_mem_marksFrom {k index : Nat} {s : Text} {mark : Mark}
    (h : mark ∈ marksFrom k index s) :
    ∃ a b, s = a ++ b ∧ readMark? (index + a.length) b = some mark := by
  have hlater : ∀ (c : CodePoint) (t : Text) (i : Nat),
      (∃ a b, t = a ++ b ∧ readMark? (i + 1 + a.length) b = some mark) →
        ∃ a b, c :: t = a ++ b ∧ readMark? (i + a.length) b = some mark := by
    rintro c t i ⟨a, b, rfl, hread⟩
    exact ⟨c :: a, b, rfl, by rwa [List.length_cons, Nat.add_comm a.length, ← Nat.add_assoc]⟩
  fun_induction marksFrom k index s with
  | case1 k index => cases h
  | case2 k index c s ih => exact hlater c s index (ih h)
  | case3 index c s length hcomment ih => exact hlater c s index (ih h)
  | case4 index c s hcomment mark' hread ih =>
      rcases List.mem_cons.1 h with rfl | h
      · exact ⟨[], c :: s, rfl, hread⟩
      · exact hlater c s index (ih h)
  | case5 index c s hcomment hread ih => exact hlater c s index (ih h)

theorem first_of_readMark? {index : Nat} {s : Text} {mark : Mark}
    (h : readMark? index s = some mark) : mark.first = index ∧ mark.first ≤ mark.stop := by
  unfold readMark? at h
  split at h
  · simp only [Option.ite_none_right_eq_some, Option.map_eq_some_iff] at h
    obtain ⟨-, found, -, rfl⟩ := h
    exact ⟨rfl, Nat.le_add_right _ _⟩
  · cases h

theorem mem_of_endMark? {name : Text} {depth : Nat} {ms : List Mark} {mark : Mark}
    (h : endMark? name depth ms = some mark) : mark ∈ ms := by
  fun_induction endMark? name depth ms with
  | case1 depth => cases h
  | case2 depth mark' rest hname ih => exact List.mem_cons_of_mem _ (ih h)
  | case3 mark' rest hname hclosing => exact Option.some.inj h ▸ List.mem_cons_self
  | case4 mark' rest hname hclosing depth ih => exact List.mem_cons_of_mem _ (ih h)
  | case5 depth mark' rest hname hclosing hself ih => exact List.mem_cons_of_mem _ (ih h)
  | case6 depth mark' rest hname hclosing hself ih => exact List.mem_cons_of_mem _ (ih h)

/-- The end tag that stands behind a text goes, if it is the one that is counted. -/
theorem withoutEnd_append_endTagText {name s : Text} (hname : isElementName name = true)
    (h : IsCountedBehind name s) : withoutEnd name (s ++ endTagText name) = s := by
  obtain ⟨mark, hmark, hfirst⟩ := Option.map_eq_some_iff.1 h
  obtain ⟨a, b, hsplit, hread⟩ := readMark?_of_mem_marksFrom (mem_of_endMark? hmark)
  have ha : a.length = s.length := by
    have := (first_of_readMark? hread).1
    omega
  obtain ⟨rfl, rfl⟩ := List.append_inj hsplit ha.symm
  rw [← List.append_nil (endTagText name), readMark?_endTagText hname, Nat.zero_add] at hread
  rw [withoutEnd, hmark, ← Option.some.inj hread]
  simp

/-! ## Clearing -/

/-- The region of a wrapper, and what is left behind it: together with the content of the wrapper
that is what follows the start tag, without the end tag that is counted. -/
theorem exists_region_wrapperOpen (s : Text) : ∃ region post,
    region? wrapperOpen.name (wrapperOpen.source ++ s) = some region ∧
      region.start = wrapperOpen.source ∧ s = region.inner ++ region.close ++ post ∧
      region.inner ++ post = withoutEnd wrapperOpen.name s := by
  have hvoid : voidNames.elem wrapperOpen.name = false := by decide
  have hraw : RawText.names.elem wrapperOpen.name = false := by decide
  rw [region?, startText?_source wellFormed_wrapperOpen.isWritten.isDelimited, Option.map_some, withoutEnd]
  simp only [hvoid, hraw, endsWith_source wellFormed_wrapperOpen.isWritten.isDelimited,
    wellFormed_wrapperOpen.closesItself_eq_false, Bool.or_self, Bool.false_eq_true,
    if_false]
  cases hmark : endMark? wrapperOpen.name 0 (marks s) with
  | none => exact ⟨_, s, rfl, rfl, rfl, rfl⟩
  | some mark =>
      obtain ⟨a, b, -, hread⟩ := readMark?_of_mem_marksFrom (mem_of_endMark? hmark)
      have hle := (first_of_readMark? hread).2
      refine ⟨_, s.drop mark.stop, rfl, rfl, ?_, rfl⟩
      have hrest : s.drop mark.stop = (s.drop mark.first).drop (mark.stop - mark.first) := by
        rw [List.drop_drop, Nat.add_sub_cancel' hle]
      simp only [hrest, List.append_assoc, List.take_append_drop]

/-- The only wrapper in wrapped markup is the one that was put around it. -/
theorem exists_matchesIn_around {s : Text} (hs : ¬ MentionsVocabulary (s ++ endTagText wrapperOpen.name))
    (hok : IsAccepted (Wrapper.around s)) : ∃ (m : Match) (post : Text),
      matchesIn (Wrapper.around s) (.ofAttr wrapperAttr) none = .ok [m] ∧
      m.tag = wrapperOpen.tagAt .origin ∧ m.start = wrapperOpen.source ∧
      Wrapper.around s = m.outer ++ post ∧
      m.inner ++ post = withoutEnd wrapperOpen.name (s ++ endTagText wrapperOpen.name) := by
  obtain ⟨nodes, hnodes⟩ := hok.exists_nodes
  rw [around_eq] at hnodes
  obtain ⟨tags, htags, hnames⟩ := tagsOf_openTag wellFormed_wrapperOpen hnodes
  obtain ⟨e, es, helements, htag, hrest⟩ := List.map_eq_cons_iff.1 htags
  obtain ⟨region, post, hregion, hstart, hsplit, hwithout⟩ :=
    exists_region_wrapperOpen (s ++ endTagText wrapperOpen.name)
  have hselected : (Selector.ofAttr wrapperAttr).selects e.tag = true := by
    rw [htag]
    decide
  have hothers : es.filter ((Selector.ofAttr wrapperAttr).selects ·.tag) = [] := by
    rw [List.filter_eq_nil_iff]
    intro x hx
    have hattr := hasAttr_of_not_mentionsVocabulary hs vocabularyWord_infix_wrapperAttr (by decide)
      (hnames x.tag (hrest ▸ List.mem_map.2 ⟨x, hx, rfl⟩))
    simp [Selector.selects, Selector.ofAttr, hattr]
  have hfilter : (elementsOf nodes).filter ((Selector.ofAttr wrapperAttr).selects ·.tag) = [e] := by
    rw [helements, List.filter_cons, if_pos hselected, hothers]
  have hfound : e.tag.match? (Wrapper.around s)
      = some ⟨e.tag, region.start, region.inner, region.close⟩ := by
    have hoffset : Position.origin.offset? (lineStarts (Wrapper.around s)) = some 0 :=
      offset?_advance [] (Wrapper.around s)
    rw [Tag.match?, htag, OpenTag.tagAt, hoffset, Option.bind_some, List.drop_zero, around_eq, hregion]
    rfl
  refine ⟨⟨e.tag, region.start, region.inner, region.close⟩, post, ?_, htag, hstart, ?_, hwithout⟩
  · have hlt : (Wrapper.around s).elem (char '<') = true := by
      rw [around_eq]
      rfl
    rw [matchesIn, hlt, around_eq, hnodes]
    simp only [Bool.not_true, Bool.false_eq_true, if_false, takeUpTo, hfilter]
    rw [← around_eq, List.map_singleton, ofElement_of_match? hfound]
  · rw [around_eq, hsplit]
    simp [Match.outer, hstart]

theorem expandSelfClosing_around {s : Text} (h : expandSelfClosing s = s) :
    expandSelfClosing (Wrapper.around s) = Wrapper.around s := by
  have hend : endTagText wrapperOpen.name = char '<' :: "/div>".text := by decide
  have hinside : expandFrom 0 (s ++ endTagText wrapperOpen.name) = s ++ endTagText wrapperOpen.name := by
    rw [hend]
    exact expandSelfClosing_append h (by decide) (by decide)
  rw [around_eq, expandSelfClosing, expandFrom_source wellFormed_wrapperOpen.isWritten rfl, hinside]

/-- Clearing takes a wrapper out, with the end tag that is counted for it. -/
theorem clear_around {s : Text} (hs : ¬ MentionsVocabulary s) (hclosed : expandSelfClosing s = s)
    (hok : IsAccepted (Wrapper.around s)) :
    Wrapper.clear (Wrapper.around s)
      = .ok (withoutEnd wrapperOpen.name (s ++ endTagText wrapperOpen.name)) := by
  have hname : ¬ MentionsVocabulary (char '/' :: wrapperOpen.name ++ [char '>']) := by decide
  obtain ⟨m, post, hmatches, htag, hstart, hsplit, hwithout⟩ :=
    exists_matchesIn_around (not_mentionsVocabulary_append_endTagText hs hname) hok
  have houter : m.part .outer
      = char '<' :: (wrapperOpen.inside ++ char '>' :: (m.inner ++ m.close)) := by
    rw [Match.part, Match.outer, hstart]
    simp [OpenTag.source]
  have hunwrap : Wrapper.unwrap m = m.inner := by
    rw [Wrapper.unwrap, htag]
    exact if_pos (by decide)
  have hpatch : patch (fun m => (pure (Wrapper.unwrap m) : Id Text)) .outer (Wrapper.around s) [m]
      = pure (m.inner ++ post) := by
    -- the wrapper stands in front of everything else
    have hfront : EveryTag (fun _ => False) [] := everyTag_of_not_mem (by simp)
    have key := @patchOne_of_everyTag Id _ (fun m => pure (Wrapper.unwrap m)) .outer _ [] _ _ post m
      hfront wellFormed_wrapperOpen.gt_not_mem not_false houter
    rw [patch_cons, hsplit]
    show patchOne _ .outer ([] ++ m.part .outer ++ post) m >>= _ = _
    rw [key, hunwrap]
    rfl
  rw [Wrapper.clear, expandSelfClosing_around hclosed,
    replaceMatches_eq_patch (fun _ => by decide) hmatches, hpatch, ← hwithout]
  rfl

/-! ## Inclusion -/

namespace Scope

/-- Scoping a fragment without the word puts a wrapper around it and nothing else, and clearing
gives the fragment back, if the end tag of the wrapper is the one that is counted for it. -/
theorem clear_scopeStylesOf {s : Text} (hs : ¬ MentionsVocabulary s)
    (hclosed : expandSelfClosing s = s) (hok : IsAccepted s) (hwrapped : IsAccepted (Wrapper.around s))
    (hcounted : IsCountedBehind "div".text s) (markers : Markers) :
    scopeStylesOf .empty markers s = pure (Wrapper.around s, .empty) ∧
      Wrapper.clear (Wrapper.around s) = .ok s := by
  refine ⟨scopeStylesOf_of_not_mentionsVocabulary hs hok markers, ?_⟩
  rw [clear_around hs hclosed hwrapped]
  exact congrArg Except.ok (withoutEnd_append_endTagText (by decide) hcounted)

/-- The start tag of a section. -/
def sectionOpen : OpenTag := ⟨"section".text, [⟨[' '], "class".text, "main".text⟩], []⟩

/-- The front of a page: a heading, and a section that another fragment closes. -/
def pageFront : Text :=
  (OpenTag.bare "h1".text).source ++ "Home".text ++ endTagText "h1".text ++ sectionOpen.source

theorem clear_scopeStylesOf_pageFront :
    pageFront = "<h1>Home</h1><section class=\"main\">".text ∧
      ¬ MentionsVocabulary pageFront ∧ expandSelfClosing pageFront = pageFront ∧
      IsAccepted pageFront ∧ IsAccepted (Wrapper.around pageFront) ∧
      IsCountedBehind "div".text pageFront ∧
      scopeStylesOf .empty (fun _ => []) pageFront = pure (Wrapper.around pageFront, .empty) ∧
      Wrapper.clear (Wrapper.around pageFront) = .ok pageFront := by
  have hword : ¬ MentionsVocabulary pageFront := by decide
  have hclosed : expandSelfClosing pageFront = pageFront := by decide
  have hok : IsAccepted pageFront := by decide +kernel
  have hwrapped : IsAccepted (Wrapper.around pageFront) := by decide +kernel
  -- the heading is closed, and the section is of another name than the wrapper
  have hheading := isBalanced_element "div".text (t := .bare "h1".text) (by decide)
    (isBalanced_of_not_mem (s := "Home".text) _ (by decide))
  have hsection : IsBalanced "div".text sectionOpen.source :=
    isBalanced_source (by decide) (by decide)
  have hcounted : IsCountedBehind "div".text pageFront :=
    IsBalanced.isCountedBehind (by decide) (hheading.append hsection)
  exact ⟨by decide, hword, hclosed, hok, hwrapped, hcounted,
    clear_scopeStylesOf hword hclosed hok hwrapped hcounted _⟩

/-- An element that nothing closes is closed by the end tag of the wrapper, which stays. -/
theorem clear_around_openDiv :
    ¬ MentionsVocabulary "<div>".text ∧ expandSelfClosing "<div>".text = "<div>".text ∧
      ¬ IsCountedBehind "div".text "<div>".text ∧
      (scopeStylesOf .empty (fun _ => []) "<div>".text).outcome .start
        = (.ok (Wrapper.around "<div>".text, .empty), .start) ∧
      Wrapper.clear (Wrapper.around "<div>".text) = .ok "<div></div>".text ∧
      Wrapper.clear (Wrapper.around "<div>".text) ≠ .ok "<div>".text := by
  decide +kernel

end Scope

end Stencil
