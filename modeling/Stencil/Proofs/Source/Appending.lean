import Stencil.Proofs.Document.Edit
import Stencil.Proofs.Document.Tokens
import Stencil.Proofs.Source.Attributes
import Stencil.Proofs.Source.Expansion

set_option autoImplicit false

/-! # Adding attributes to a start tag

Attributes are added in front of the end of a start tag, and what is cut off there is found by its
look: the last `/>` or `>` and the blanks before it. The tag is read with its own attributes and
the new ones when the end is nothing else as well (`EndsPlainly`). It need not be: a value without
quotes can end in the slash, a value can be missing behind its equals sign, a double quote can be
open, and a name can end in blanks that the reader of names does not take for such. Each of these
gives a tag that is read differently afterwards (`appendAttributes_disturbs`).
-/

namespace Stencil.Html

open Text StartTag

/-! ## Start tags that are read in full -/

/-- Whether the reader takes a text as one start tag, from its front to its end. -/
def IsRead (start : Text) (tag : StartTag) : Prop :=
  ∀ last p, ∃ mode, Step.next last .markup p start = .ok (.go [.start p tag] mode [])

/-- A text is one start tag when it begins with `<` and a letter and the reader of start tags gets
to the end of the rest. -/
theorem isRead_iff {start : Text} {tag : StartTag} :
    IsRead start tag ↔ ∃ s, start = char '<' :: s ∧
        (s.head?.map CodePoint.isAlpha).getD false = true ∧
      StartTag.read s = .tag tag [] := by
  constructor
  · intro h
    obtain ⟨mode, hnext⟩ := h false .origin
    obtain ⟨-, -, s, hs, halpha, hread⟩ := Step.of_mem_next hnext List.mem_cons_self
    exact ⟨s, hs, halpha, hread⟩
  · rintro ⟨s, rfl, halpha, hread⟩ last p
    exact ⟨_, next_of_read halpha hread last p⟩

instance (start : Text) (tag : StartTag) : Decidable (IsRead start tag) :=
  decidable_of_iff (start.head? = some (char '<') ∧
      (start.tail.head?.map CodePoint.isAlpha).getD false = true ∧
      StartTag.read start.tail = .tag tag []) (by
    rw [isRead_iff]
    constructor
    · rintro ⟨hhead, halpha, hread⟩
      cases start with
      | nil => cases hhead
      | cons c s =>
          rw [Option.some.inj hhead]
          exact ⟨s, rfl, halpha, hread⟩
    · rintro ⟨s, rfl, halpha, hread⟩
      exact ⟨rfl, halpha, hread⟩)

/-- A letter may stand in the name of a tag. -/
theorem isNameChar_of_isAlpha {c : CodePoint} (h : c.isAlpha = true) : isNameChar c = true := by
  rw [isNameChar, Bool.not_eq_true', Bool.eq_false_iff]
  intro hmem
  simp only [List.elem_eq_mem, List.mem_cons, List.not_mem_nil, or_false, decide_eq_true_eq] at hmem
  rcases hmem with rfl | rfl | rfl | rfl | rfl | rfl | rfl | rfl <;> exact absurd h (by decide)

/-- The name at the front of a start tag, and what stands behind it. -/
structure IsNamed (name after : Text) : Prop where
  letter : (name.head?.map CodePoint.isAlpha).getD false = true
  chars : ∀ c ∈ name, isNameChar c = true
  stop : ∀ c, after.head? = some c → isNameChar c = false

theorem isNamed_of_letter {s : Text} (h : (s.head?.map CodePoint.isAlpha).getD false = true) :
    IsNamed (s.takeWhile isNameChar) (s.dropWhile isNameChar) := by
  refine ⟨?_, fun c hc => List.mem_takeWhile_imp hc, fun c hc => ?_⟩
  · cases s with
    | nil => exact h
    | cons a s =>
        have ha : a.isAlpha = true := h
        rw [List.takeWhile_cons_of_pos (isNameChar_of_isAlpha ha)]
        exact ha
  · have hstop := List.head?_dropWhile_not isNameChar s
    rw [hc] at hstop
    simpa using hstop

section

variable {name after : Text} {tag : StartTag}

theorem IsNamed.takeWhile_append (h : IsNamed name after) :
    (name ++ after).takeWhile isNameChar = name ∧ (name ++ after).dropWhile isNameChar = after := by
  cases after with
  | nil =>
      rw [List.append_nil]
      exact ⟨List.takeWhile_eq_self_iff.2 h.chars, List.dropWhile_eq_nil_iff.2 h.chars⟩
  | cons c r =>
      have hc := h.stop c rfl
      exact ⟨takeWhile_append_cons r h.chars hc, dropWhile_append_cons r h.chars hc⟩

/-- Whether an attribute may follow a name at once. -/
def isReadyAfter (name : Text) : Bool := (name.getLast?.map endsPiece).getD false

/-- The attributes of a start tag are those that are written, with the references in their values
replaced; none of these has a number that is too long. -/
structure AreAttrs (attrs written : List (Text × Text)) : Prop where
  number : ∀ a ∈ written, CharRef.overlongIn? a.2 = none
  replaced : attrs = written.map fun a => (a.1, CharRef.unescape a.2)

/-- Attributes without a value are as they are written. -/
theorem AreAttrs.append {attrs written : List (Text × Text)} (h : AreAttrs attrs written)
    (names : List Text) :
    AreAttrs (attrs ++ names.map fun name => (name, []))
      (written ++ names.map fun name => (name, [])) := by
  refine ⟨fun a ha => ?_, ?_⟩
  · rcases List.mem_append.1 ha with ha | ha
    · exact h.number a ha
    · obtain ⟨name, -, rfl⟩ := List.mem_map.1 ha
      exact overlongIn?_of_not_mem (by simp)
  · rw [h.replaced, List.map_append, List.map_map]
    rfl

/-- A start tag is read in full when its attributes are, up to its end. -/
theorem IsNamed.read_eq_tag_iff (h : IsNamed name after) :
    StartTag.read (name ++ after) = .tag tag [] ↔ tag.name = lower name ∧
      ∃ written, AreAttrs tag.attrs written ∧
        readAttrs (isReadyAfter name) after = (written, tagEnd tag.selfClosing) := by
  unfold StartTag.read isReadyAfter
  dsimp only
  rw [h.takeWhile_append.1, h.takeWhile_append.2]
  generalize readAttrs _ after = result
  obtain ⟨written, rest⟩ := result
  obtain ⟨name', attrs', selfClosing⟩ := tag
  constructor
  · intro h
    split at h
    · rename_i hrest
      obtain ⟨hnumber, htag⟩ := of_ofAttrs h nofun
      cases htag
      exact ⟨rfl, written, ⟨hnumber, rfl⟩, Prod.ext rfl hrest⟩
    · rename_i hrest
      obtain ⟨hnumber, htag⟩ := of_ofAttrs h nofun
      cases htag
      exact ⟨rfl, written, ⟨hnumber, rfl⟩, Prod.ext rfl hrest⟩
    · cases h
    · split at h
      · cases h
      · cases (of_ofAttrs h nofun).2
  · rintro ⟨rfl, _, ⟨hnumber, hreplaced⟩, heq⟩
    cases heq
    cases hreplaced
    cases selfClosing <;> exact ofAttrs_of_forall hnumber _

theorem IsNamed.isRead_iff (h : IsNamed name after) :
    IsRead ('<' :: (name ++ after)) tag ↔ tag.name = lower name ∧
      ∃ written, AreAttrs tag.attrs written ∧
        readAttrs (isReadyAfter name) after = (written, tagEnd tag.selfClosing) := by
  have hletter : ((name ++ after).head?.map CodePoint.isAlpha).getD false = true := by
    cases name with
    | nil => exact absurd h.letter (by decide)
    | cons c s => exact h.letter
  rw [Html.isRead_iff, ← h.read_eq_tag_iff]
  constructor
  · rintro ⟨s, hs, -, hread⟩
    rwa [(List.cons.inj hs).2]
  · intro hread
    exact ⟨_, rfl, hletter, hread⟩

/-- A start tag is its name and what stands behind it. -/
theorem IsRead.exists_named {start : Text} (h : IsRead start tag) :
    ∃ name after, start = char '<' :: (name ++ after) ∧ IsNamed name after := by
  obtain ⟨s, rfl, hletter, -⟩ := Html.isRead_iff.1 h
  exact ⟨_, _, by rw [List.takeWhile_append_dropWhile], isNamed_of_letter hletter⟩

end

/-! ## The end of a start tag -/

/-- What stands in front of the attributes that are added to a start tag. -/
def keptText (start : Text) : Text :=
  trimRight (start.take (start.length - if endsWith start ['/', '>'] then 2 else 1))

theorem appendAttributes_eq {start : Text} {names : List Text} (h : names ≠ []) :
    appendAttributes start names
      = keptText start ++ (names.flatMap (fun name => attrText (name, [])) ++
          if endsWith start ['/', '>'] then [char ' ', char '/', char '>'] else [char '>']) := by
  rw [appendAttributes, if_neg (by simpa using h), keptText]
  split
  · rw [List.append_assoc]
  · rw [List.append_assoc]

/-- The name of a start tag as it is written. -/
def nameText (start : Text) : Text := start.tail.takeWhile isNameChar

/-- What follows the names of the attributes of a start tag. -/
def textsAfterNames (start : Text) : List Text :=
  afterNames (isReadyAfter (nameText start)) (start.tail.dropWhile isNameChar)

/-- The end of a start tag by its look is nothing else: the name does not reach into it, a slash
closes the tag, and so do the blanks and `>` behind every attribute. -/
structure EndsPlainly (start : Text) (tag : StartTag) : Prop where
  name : char '<' :: nameText start <+: keptText start
  slash : endsWith start ['/', '>'] = true → tag.selfClosing = true
  closed : ∀ after ∈ textsAfterNames start, IsClosed after

instance (start : Text) (tag : StartTag) : Decidable (EndsPlainly start tag) :=
  decidable_of_iff (char '<' :: nameText start <+: keptText start ∧
      (endsWith start ['/', '>'] = true → tag.selfClosing = true) ∧
      ∀ after ∈ textsAfterNames start, IsClosed after)
    ⟨fun ⟨h₁, h₂, h₃⟩ => ⟨h₁, h₂, h₃⟩, fun ⟨h₁, h₂, h₃⟩ => ⟨h₁, h₂, h₃⟩⟩

/-- The blanks and the mark at the end of a tag. -/
theorem isEnding_tagEnd {g : Text} (hg : ∀ c ∈ g, isBlank c = true) (closed : Bool) :
    IsEnding (tagEnd closed) (g ++ tagEnd closed) := by
  refine ⟨?_, g, hg, rfl⟩
  cases closed
  · exact .inl rfl
  · exact .inr rfl

/-! ## What is added -/

theorem attrText_nil (name : Text) :
    attrText (name, []) = char ' ' :: (name ++ [char '=', char '"', char '"']) := by
  rw [attrText, List.append_assoc, List.append_assoc]
  rfl

section

variable {names : List Text} (hnames : ∀ name ∈ names, IsAttrName name)

include hnames

/-- The attributes that are added, with the end behind them, are read as such. -/
theorem readAttrs_added (closed ready : Bool) :
    readAttrs ready (names.flatMap (fun name => attrText (name, [])) ++
        if closed then [char ' ', char '/', char '>'] else [char '>'])
      = (names.map fun name => (name, []), tagEnd closed) := by
  have hdelimited : ∀ a ∈ names.map fun name => (⟨[' '], name, []⟩ : QuotedAttr),
      a.IsDelimited := by
    intro a ha
    obtain ⟨name, hmem, rfl⟩ := List.mem_map.1 ha
    exact ⟨by simp, by simp [IsGap, isIndent], (hnames name hmem).ne_nil, (hnames name hmem).chars,
      by simp, overlongIn?_of_not_mem (by simp)⟩
  have hgap : IsGap (if closed then [' '] else []) := by cases closed <;> decide
  have hread := readAttrs_trailer hdelimited hgap (e := tagEnd closed)
    (by cases closed <;> rfl) (by cases closed <;> rfl) ready
  have hsource : names.flatMap (fun name => attrText (name, [])) ++
      (if closed then [char ' ', char '/', char '>'] else [char '>'])
      = (names.map fun name => (⟨[char ' '], name, []⟩ : QuotedAttr)).flatMap QuotedAttr.source ++
        (if closed then [char ' '] else []) ++ tagEnd closed := by
    rw [List.flatMap_map, List.append_assoc]
    cases closed <;> rfl
  have hpairs : (names.map fun name => (⟨[' '], name, []⟩ : QuotedAttr)).map
      (fun a => (lower a.name, a.value)) = names.map fun name => (name, []) := by
    rw [List.map_map]
    refine List.map_congr_left fun name hmem => ?_
    show (lower name, []) = (name, [])
    rw [(hnames name hmem).lower]
  rw [hsource, hread, hpairs]

theorem isAddition_added (hne : names ≠ []) (closed : Bool) :
    IsAddition (names.flatMap (fun name => attrText (name, [])) ++
      if closed then [char ' ', char '/', char '>'] else [char '>']) := by
  obtain ⟨name, others, rfl⟩ := List.exists_cons_of_ne_nil hne
  have hname := hnames name List.mem_cons_self
  obtain ⟨c, r, rfl, hblank, -, -⟩ := exists_cons_of_isQuotedAttrChar hname.ne_nil hname.chars
  have hequals : c ≠ '=' := by
    rintro rfl
    exact absurd (hname.chars '=' List.mem_cons_self) (by decide)
  obtain ⟨more, hfront⟩ : ∃ more, ((c :: r) :: others).flatMap (fun name => attrText (name, [])) ++
      (if closed then [char ' ', char '/', char '>'] else [char '>']) = char ' ' :: c :: more :=
    ⟨_, by rw [List.flatMap_cons, attrText_nil]; rfl⟩
  refine ⟨⟨_, hfront⟩, ?_, fun hmem => ?_⟩
  · rw [hfront, trimLeft, List.dropWhile_cons_of_pos (by decide),
      List.dropWhile_cons_of_neg (by simp [hblank])]
    simpa using hequals
  · rcases List.mem_append.1 hmem with hmem | hmem
    · obtain ⟨name, hname, hmem⟩ := List.mem_flatMap.1 hmem
      rw [attrText_nil, List.mem_cons, List.mem_append] at hmem
      rcases hmem with h | h | h
      · exact absurd h (by decide)
      · exact absurd ((hnames name hname).chars '\'' h) (by decide)
      · exact absurd h (by decide)
    · cases closed <;> exact absurd hmem (by decide)

end

section

variable {name after : Text} {tag : StartTag}

theorem IsNamed.endsPlainly_iff (h : IsNamed name after) :
    EndsPlainly ('<' :: (name ++ after)) tag ↔
      (char '<' :: name <+: keptText ('<' :: (name ++ after))) ∧
      (endsWith ('<' :: (name ++ after)) ['/', '>'] = true → tag.selfClosing = true) ∧
      ∀ text ∈ afterNames (isReadyAfter name) after, IsClosed text := by
  have hname : nameText ('<' :: (name ++ after)) = name := h.takeWhile_append.1
  have htexts : textsAfterNames ('<' :: (name ++ after)) = afterNames (isReadyAfter name) after := by
    rw [textsAfterNames, hname, List.tail_cons, h.takeWhile_append.2]
  constructor
  · rintro ⟨hkept, hslash, hclosed⟩
    rw [hname] at hkept
    rw [htexts] at hclosed
    exact ⟨hkept, hslash, hclosed⟩
  · rintro ⟨hkept, hslash, hclosed⟩
    refine ⟨?_, hslash, ?_⟩
    · rwa [hname]
    · rwa [htexts]

/-- What is kept of a start tag is its text without its mark, trimmed. -/
theorem keptText_append (body : Text) (closed : Bool)
    (hslash : endsWith (body ++ tagEnd closed) ['/', '>'] = closed) :
    keptText (body ++ tagEnd closed) = trimRight body := by
  have hlength : (if closed then 2 else 1) = (tagEnd closed).length := by cases closed <;> rfl
  rw [keptText, hslash, hlength, take_length_sub]

/-- A start tag that ends plainly is its name, its attributes and its end; the first two are kept. -/
theorem EndsPlainly.exists_parts (h : EndsPlainly ('<' :: (name ++ after)) tag)
    (hnamed : IsNamed name after) (hmark : tagEnd tag.selfClosing <:+ after) :
    ∃ v g, (∀ c ∈ g, isBlank c = true) ∧ IsTrimmed v ∧
      endsWith ('<' :: (name ++ after)) ['/', '>'] = tag.selfClosing ∧
      keptText ('<' :: (name ++ after)) = char '<' :: (name ++ v) ∧
      after = v ++ (g ++ tagEnd tag.selfClosing) := by
  obtain ⟨hname, hslash, -⟩ := hnamed.endsPlainly_iff.1 h
  obtain ⟨body, rfl⟩ := hmark
  have hparts : char '<' :: (name ++ (body ++ tagEnd tag.selfClosing))
      = (char '<' :: (name ++ body)) ++ tagEnd tag.selfClosing := by
    rw [List.cons_append, List.append_assoc]
  rw [hparts] at hname hslash ⊢
  have hends : endsWith (char '<' :: (name ++ body) ++ tagEnd tag.selfClosing) [char '/', char '>']
      = tag.selfClosing := by
    cases hclosed : tag.selfClosing with
    | false =>
        rw [hclosed] at hslash
        exact Bool.eq_false_iff.2 fun e => Bool.false_ne_true (hslash e)
    | true => exact (endsWith_iff _ _).2 (List.suffix_append _ _)
  have hkept := keptText_append ('<' :: (name ++ body)) tag.selfClosing hends
  obtain ⟨g, hg, htrim⟩ := exists_blank_trimRight ('<' :: (name ++ body))
  obtain ⟨v, hv⟩ := hname
  rw [hkept] at hv ⊢
  rw [← hv, List.cons_append, List.cons_append, List.cons.injEq, List.append_assoc] at htrim
  refine ⟨v, g, hg, ?_, hends, hv.symm, ?_⟩
  · exact (isTrimmed_trimRight _).of_suffix (hv ▸ List.suffix_append _ v)
  · rw [List.append_cancel_left htrim.2, List.append_assoc]

/-- What is added in front of the end of a tag leaves the name alone, which ends in front of the
text that is kept, or else at the space in front of what is added. -/
theorem IsNamed.append {v r u : Text} (h : IsNamed name (v ++ r)) (hu : IsAddition u) :
    IsNamed name (v ++ u) := by
  refine ⟨h.letter, h.chars, fun c hc => ?_⟩
  cases v with
  | nil =>
      obtain ⟨q, rfl⟩ := hu.space
      rw [← Option.some.inj hc]
      decide
  | cons d v => exact h.stop c hc

end

/-- **Attributes that are added to a start tag leave it as it is.** If the end of a tag that is
read in full is nothing but its end, the tag with the new attributes is read in full as well: with
its name, its attributes in order and with their values, and the new ones behind them. -/
theorem appendAttributes_isRead {start : Text} {tag : StartTag} {names : List Text}
    (h : IsRead start tag) (hend : EndsPlainly start tag)
    (hnames : ∀ name ∈ names, IsAttrName name) :
    IsRead (appendAttributes start names)
      { tag with attrs := tag.attrs ++ names.map fun name => (name, []) } := by
  by_cases hne : names = []
  · subst hne
    rw [List.map_nil, List.append_nil]
    exact h
  · obtain ⟨name, after, rfl, hnamed⟩ := h.exists_named
    obtain ⟨hname, written, hwritten, hattrs⟩ := hnamed.isRead_iff.1 h
    obtain ⟨-, -, hclosed⟩ := hnamed.endsPlainly_iff.1 hend
    have hmark : tagEnd tag.selfClosing <:+ after := by
      have hrest := (of_readAttrs (isReadyAfter name) after).2
      rwa [hattrs] at hrest
    obtain ⟨v, g, hg, hv, hslash, hkept, hafter⟩ := hend.exists_parts hnamed hmark
    have hadded := isAddition_added hnames hne tag.selfClosing
    rw [appendAttributes_eq hne, hkept, hslash, List.cons_append, List.append_assoc]
    rw [hafter] at hattrs hclosed hnamed
    refine (hnamed.append hadded).isRead_iff.2 ⟨hname, _, hwritten.append names, ?_⟩
    exact readAttrs_append (isEnding_tagEnd hg tag.selfClosing) hadded
      (readAttrs_added hnames tag.selfClosing) hv hattrs hclosed

/-- A start tag with values in both quotes, without quotes and missing, a lone apostrophe, and
slashes between the attributes. -/
def motleyTag : Text := "<A-b HREF=/x/ title='\"' hidden it's / value= \"a>b\"/>".text

/-- The tag as it is read. -/
def motleyReading : StartTag :=
  ⟨"a-b".text, [("href".text, "/x/".text), ("title".text, "\"".text),
    ("hidden".text, []), ("it's".text, []), ("value".text, "a>b".text)], true⟩

theorem appendAttributes_isRead_motleyTag :
    IsRead motleyTag motleyReading ∧ EndsPlainly motleyTag motleyReading ∧
      (∀ name ∈ ["n-1".text, "2".text], IsAttrName name) ∧
      IsRead "<A-b HREF=/x/ title='\"' hidden it's / value= \"a>b\" n-1=\"\" 2=\"\" />".text
        ⟨"a-b".text, motleyReading.attrs ++ [("n-1".text, []), ("2".text, [])], true⟩ := by
  have hread : IsRead motleyTag motleyReading := by decide +kernel
  have hend : EndsPlainly motleyTag motleyReading := by decide +kernel
  have hnames : ∀ name ∈ ["n-1".text, "2".text], IsAttrName name := by
    intro name hmem
    refine isAttrName_of_chars ?_ ?_
    · rintro rfl
      exact absurd hmem (by decide)
    · revert name
      decide
  exact ⟨hread, hend, hnames, appendAttributes_isRead hread hend hnames⟩

/-- A start tag is read in full and its text is taken for that of one start tag; but with an
attribute added, it is not read as the tag with one attribute more. -/
def IsDisturbed (start : Text) (tag : StartTag) (name : Text) : Prop :=
  IsRead start tag ∧ startText? start = some (start, []) ∧ name ∉ tag.attrs.map Prod.fst ∧
    ¬ IsRead (appendAttributes start [name]) { tag with attrs := tag.attrs ++ [(name, [])] }

instance (start : Text) (tag : StartTag) (name : Text) : Decidable (IsDisturbed start tag name) :=
  inferInstanceAs (Decidable (_ ∧ _))

/-- Start tags that do not end plainly are disturbed: by a value that takes the slash of the end, a
value that is missing, a double quote that is open, and a name that ends in a blank. -/
theorem appendAttributes_disturbs :
    IsDisturbed "<a href=x/>".text
        ⟨"a".text, [("href".text, "x/".text)], false⟩ "n".text ∧
      IsDisturbed "<a b=>".text ⟨"a".text, [("b".text, [])], false⟩ "n".text ∧
      IsDisturbed "<a x' b= \"y' >".text
        ⟨"a".text, [("x'".text, []), ("b".text, []), ("\"y'".text, [])], false⟩
        "n".text ∧
      IsDisturbed "<a\u00a0>".text ⟨"a\u00a0".text, [], false⟩ "n".text := by
  decide +kernel

end Stencil.Html
