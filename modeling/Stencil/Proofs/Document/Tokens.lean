import Stencil.Proofs.Document.Tag

set_option autoImplicit false

/-! # The tokens of a document

Reading the source of a well-formed document gives the start tags of its elements, in their
order and at their positions (`tokens_source`). The reading is followed piece by piece
(`ReadsAs`): running text, a start tag, an end tag and the raw text of a style sheet are each
read in one step, and a piece that is followed by a tag or by nothing is read as if it stood
alone.
-/

namespace Stencil.Html

open Text

/-! ## The tags of a document -/

/-- The tag of the element that a token opens. -/
def Token.opened? : Token → Option Tag
  | .start p tag => some ⟨tag.name, Table.ofPairs tag.attrs, p⟩
  | .close _ => none
  | .text _ _ => none

/-- The tags of the elements of a document that is written at a position, in their order. -/
def Document.tagsFrom (p : Position) : Document → List Tag
  | text _ => []
  | element before tag content rest =>
      tag.tagAt (p.advance before) ::
        (content.tagsFrom (p.advance (before ++ tag.source)) ++
          rest.tagsFrom
            (p.advance (before ++ tag.source ++ content.source ++ endTagText tag.name)))

theorem Document.exists_of_mem_tagsFrom {d : Document} {p : Position} {t : Tag}
    (ht : t ∈ d.tagsFrom p) : ∃ x ∈ d.elements, ∃ q, t = x.1.tagAt q := by
  induction d generalizing p with
  | text s => simp [tagsFrom] at ht
  | element before tag content rest ihc ihr =>
      simp only [tagsFrom, List.mem_cons, List.mem_append] at ht
      rcases ht with rfl | ht | ht
      · exact ⟨(tag, content), by simp, _, rfl⟩
      · obtain ⟨x, hx, h⟩ := ihc ht
        exact ⟨x, by simp [hx], h⟩
      · obtain ⟨x, hx, h⟩ := ihr ht
        exact ⟨x, by simp [hx], h⟩

/-! ## Reading piece by piece -/

/-- A pass over a piece of source reads some tokens, changes from one mode to another and goes on
behind the piece. -/
def ReadsTokens (last : Bool) (mode mode' : Mode) (p : Position) (s : Text) (ts : List Token)
    (r : Text) : Prop :=
  Cursor.pass last ⟨mode, p, s ++ r⟩
    = (Cursor.pass last ⟨mode', p.advance s, r⟩).map fun found => (ts ++ found.1, found.2)

theorem readsTokens_nil (last : Bool) (mode : Mode) (p : Position) (r : Text) :
    ReadsTokens last mode mode p [] [] r := by
  show Cursor.pass last ⟨mode, p, r⟩ = (Cursor.pass last ⟨mode, p, r⟩).map id
  cases Cursor.pass last ⟨mode, p, r⟩ <;> rfl

theorem ReadsTokens.append {last : Bool} {mode₁ mode₂ mode₃ : Mode} {p : Position} {s t r : Text}
    {ts us : List Token} (hs : ReadsTokens last mode₁ mode₂ p s ts (t ++ r))
    (ht : ReadsTokens last mode₂ mode₃ (p.advance s) t us r) :
    ReadsTokens last mode₁ mode₃ p (s ++ t) (ts ++ us) r := by
  rw [ReadsTokens] at hs ht ⊢
  rw [List.append_assoc, hs, ht, Position.advance_append]
  cases Cursor.pass last ⟨mode₃, (p.advance s).advance t, r⟩ with
  | error e => rfl
  | ok found => simp [Except.map]

/-- A pass over a piece of source reads tokens with some tags, changes from one mode to another
and goes on behind the piece. -/
def ReadsAs (last : Bool) (mode mode' : Mode) (p : Position) (s : Text) (tags : List Tag)
    (r : Text) : Prop :=
  ∃ ts : List Token, ts.filterMap Token.opened? = tags ∧
    Cursor.pass last ⟨mode, p, s ++ r⟩
      = (Cursor.pass last ⟨mode', p.advance s, r⟩).map fun found => (ts ++ found.1, found.2)

theorem readsAs_nil (last : Bool) (mode : Mode) (p : Position) (r : Text) :
    ReadsAs last mode mode p [] [] r := ⟨[], rfl, readsTokens_nil last mode p r⟩

theorem ReadsAs.append {last : Bool} {mode₁ mode₂ mode₃ : Mode} {p : Position} {s t r : Text}
    {a b : List Tag} (hs : ReadsAs last mode₁ mode₂ p s a (t ++ r))
    (ht : ReadsAs last mode₂ mode₃ (p.advance s) t b r) :
    ReadsAs last mode₁ mode₃ p (s ++ t) (a ++ b) r := by
  obtain ⟨ts, hts, hpass⟩ := hs
  obtain ⟨us, hus, hpass'⟩ := ht
  exact ⟨ts ++ us, by rw [List.filterMap_append, hts, hus], ReadsTokens.append hpass hpass'⟩

/-- A step of the reading that takes the piece at the front. -/
theorem readsTokens_of_next {last : Bool} {mode mode' : Mode} {p : Position} {s r : Text}
    {ts : List Token} (hne : s ≠ [])
    (h : Step.next last mode p (s ++ r) = .ok (.go ts mode' r)) :
    ReadsTokens last mode mode' p s ts r := by
  have hlen : r.length < (s ++ r).length := by
    have := List.length_pos_iff.2 hne
    rw [List.length_append]
    omega
  rw [ReadsTokens, Cursor.pass]
  simp only [h, List.isEmpty_iff, List.append_eq_nil_iff, hne, false_and, if_false, hlen, if_true]
  rw [Cursor.moveTo, take_length_sub]

theorem readsAs_of_next {last : Bool} {mode mode' : Mode} {p : Position} {s r : Text}
    {ts : List Token} (hne : s ≠ [])
    (h : Step.next last mode p (s ++ r) = .ok (.go ts mode' r)) :
    ReadsAs last mode mode' p s (ts.filterMap Token.opened?) r :=
  ⟨ts, rfl, readsTokens_of_next hne h⟩

/-- What may follow running text, so that the text ends there. -/
def EndsRunning (r : Text) : Prop := r = [] ∨ ∃ t, r = char '<' :: t

theorem next_running {s r : Text} (hs : IsRunning s) (hne : s ≠ []) (hr : EndsRunning r)
    (last : Bool) (p : Position) :
    Step.next last .markup p (s ++ r) = .ok (.go [Step.plain s] .markup r) := by
  have hsplit : (s ++ r).takeWhile Step.isPlainChar = s
      ∧ (s ++ r).dropWhile Step.isPlainChar = r := by
    rcases hr with rfl | ⟨t, rfl⟩
    · rw [List.takeWhile_append_of_pos hs, List.dropWhile_append_of_pos hs]
      simp
    · exact ⟨takeWhile_append_cons t hs (by decide), dropWhile_append_cons t hs (by decide)⟩
  cases s with
  | nil => exact absurd rfl hne
  | cons c s =>
      have hc := hs c (by simp)
      simp only [Step.isPlainChar, Bool.and_eq_true, bne_iff_ne] at hc
      rw [Step.next, hsplit.1, hsplit.2]
      · exact fun t h => hc.1 (List.cons.inj h).1
      · exact fun t h => hc.2 (List.cons.inj h).1

theorem readsAs_running {s r : Text} (hs : IsRunning s) (hr : EndsRunning r) (last : Bool)
    (p : Position) : ReadsAs last .markup .markup p s [] r := by
  by_cases hne : s = []
  · subst hne
    exact readsAs_nil last .markup p r
  · exact readsAs_of_next hne (next_running hs hne hr last p)

/-- The mode in which the content of an element is read. -/
def OpenTag.contentMode (t : OpenTag) : Mode :=
  if RawText.names.elem t.name then .raw t.name else .markup

theorem OpenTag.contentMode_of_not_mem {t : OpenTag} (h : t.name ∉ RawText.names) :
    t.contentMode = .markup := if_neg (by simpa using h)

theorem OpenTag.contentMode_of_mem {t : OpenTag} (h : t.name ∈ RawText.names) :
    t.contentMode = .raw t.name := if_pos (by simpa using h)

/-- The mode in which what follows a start tag is read. -/
def OpenTag.modeAfter (t : OpenTag) : Mode :=
  if !t.closesItself && RawText.names.elem t.name then .raw t.name else .markup

theorem OpenTag.WellFormed.modeAfter {t : OpenTag} (h : t.WellFormed) : t.modeAfter = t.contentMode := by
  rw [OpenTag.modeAfter, OpenTag.contentMode, h.closesItself_eq_false, Bool.not_false, Bool.true_and]

/-- A step at a start tag that is read in full. -/
theorem next_of_read {s : Text} {tag : StartTag} {r : Text}
    (halpha : (s.head?.map CodePoint.isAlpha).getD false = true)
    (hread : StartTag.read s = .tag tag r)
    (last : Bool) (p : Position) :
    Step.next last .markup p ('<' :: s)
      = .ok (.go [.start p tag]
          (if !tag.selfClosing && RawText.names.elem tag.name then .raw tag.name else .markup) r) := by
  cases s with
  | nil => exact absurd halpha (by decide)
  | cons c s =>
      have hc : c.isAlpha = true := halpha
      have hmarkup : Step.ofMarkup p (c :: s) = Step.ofStartTag p (c :: s) := by
        unfold Step.ofMarkup
        split
        · rename_i e
          rw [(List.cons.inj e).1] at hc
          exact absurd hc (by decide)
        · rename_i e
          rw [(List.cons.inj e).1] at hc
          exact absurd hc (by decide)
        · rename_i e
          rw [(List.cons.inj e).1] at hc
          exact absurd hc (by decide)
        · rename_i e
          rw [(List.cons.inj e).1] at hc
          rw [if_pos hc]
        · rename_i e
          cases e
      rw [Step.next, hmarkup, Step.ofStartTag, hread]
      rfl

theorem next_delimitedTag {t : OpenTag} (h : t.IsDelimited) (last : Bool) (p : Position)
    (r : Text) : Step.next last .markup p (t.source ++ r)
      = .ok (.go [.start p ⟨t.name, t.unescapedPairs, t.closesItself⟩] t.modeAfter r) := by
  obtain ⟨c, n, hn, hc⟩ := exists_cons_of_isElementName h.name
  have halpha : ((t.inside ++ char '>' :: r).head?.map CodePoint.isAlpha).getD false = true := by
    simp [OpenTag.inside, hn, hc]
  have hsource : t.source ++ r = char '<' :: (t.inside ++ char '>' :: r) := by simp [OpenTag.source]
  rw [hsource, next_of_read halpha (h.read_inside r)]
  rfl

theorem next_startTag {t : OpenTag} (h : t.IsWritten) (last : Bool) (p : Position) (r : Text) :
    Step.next last .markup p (t.source ++ r)
      = .ok (.go [.start p ⟨t.name, t.pairs, t.closesItself⟩] t.modeAfter r) := by
  rw [next_delimitedTag h.isDelimited, h.unescapedPairs]

theorem readsAs_startTag {t : OpenTag} (h : t.IsWritten) (last : Bool) (p : Position) (r : Text) :
    ReadsAs last .markup t.modeAfter p t.source [t.tagAt p] r := by
  have key := readsAs_of_next (by simp [OpenTag.source]) (next_startTag h last p r)
  have htag : [Token.start p ⟨t.name, t.pairs, t.closesItself⟩].filterMap Token.opened?
      = [t.tagAt p] := by
    simp [Token.opened?, OpenTag.tagAt, OpenTag.table]
  rwa [htag] at key

theorem readsAs_openTag {t : OpenTag} (h : t.WellFormed) (last : Bool) (p : Position) (r : Text) :
    ReadsAs last .markup t.contentMode p t.source [t.tagAt p] r :=
  h.modeAfter ▸ readsAs_startTag h.isWritten last p r

theorem trim_eq_self {s : Text} (h : ∀ c ∈ s, isBlank c = false) : trim s = s := by
  have hleft : ∀ {s : Text}, (∀ c ∈ s, isBlank c = false) → s.dropWhile isBlank = s := by
    intro s hs
    cases s with
    | nil => rfl
    | cons c s => rw [List.dropWhile_cons_of_neg (by simp [hs c (by simp)])]
  rw [trim, trimLeft, hleft h, trimRight, dropEndWhile, hleft fun c hc => h c (List.mem_reverse.1 hc),
    List.reverse_reverse]

theorem next_endTag {name : Text} (h : isElementName name = true) (last : Bool) (p : Position)
    (r : Text) : Step.next last .markup p (endTagText name ++ r)
      = .ok (.go [.close name] .markup r) := by
  obtain ⟨c, n, hn, hc⟩ := exists_cons_of_isElementName h
  have hcut : cut? ['>'] (name ++ char '>' :: r) = some (name, r) :=
    cut?_char (not_mem_of_isElementName h (by decide))
  have hall : name.all Token.isEndNameChar = true :=
    List.all_eq_true.2 (isEndNameChar_of_mem h)
  have hhead : (name.head?.map CodePoint.isAlpha).getD false = true := by simp [hn, hc]
  have hread : Token.readEndTag? (name ++ char '>' :: r) = some ([.close name], r) := by
    rw [Token.readEndTag?, hcut]
    simp only [Option.map_some, trim_eq_self (not_isBlank_of_mem h), hhead, hall, Bool.and_self,
      if_true, lower_eq_self h]
  rw [show endTagText name ++ r = char '<' :: char '/' ::
      (name ++ char '>' :: r) by simp [endTagText],
    Step.next, Step.ofMarkup, hread]
  rfl

theorem readsAs_endTag {name : Text} (h : isElementName name = true) (last : Bool) (p : Position)
    (r : Text) : ReadsAs last .markup .markup p (endTagText name) [] r :=
  readsAs_of_next (by simp [endTagText]) (next_endTag h last p r)

/-! ## Raw text -/

/-- The first place where a reader reads something, when it reads nothing before. -/
theorem cutAt?_append {reader : Text → Option Text} {s t rest : Text}
    (h : ∀ a b, s = a ++ b → b ≠ [] → reader (b ++ t) = none) (ht : reader t = some rest)
    (hne : t ≠ []) :
    cutAt? reader (s ++ t) = some (s, t.take (t.length - rest.length), rest) := by
  induction s with
  | nil =>
      cases t with
      | nil => exact absurd rfl hne
      | cons c t => rw [List.nil_append, cutAt?, ht]
  | cons c s ih =>
      have hc := h [] (c :: s) rfl (by simp)
      rw [List.cons_append] at hc ⊢
      rw [cutAt?, hc, ih fun a b hab hb => h (c :: a) b (by simp [hab]) hb]
      rfl

/-- A reader finds no place when it reads nothing in front of any rest of the text. -/
theorem cutAt?_eq_none_iff {reader : Text → Option Text} {s : Text} :
    cutAt? reader s = none ↔ ∀ b, b <:+ s → reader b = none := by
  induction s with
  | nil =>
      rw [cutAt?, Option.map_eq_none_iff]
      constructor
      · intro h b hb
        rwa [List.suffix_nil.1 hb]
      · exact fun h => h [] List.suffix_rfl
  | cons c s ih =>
      rw [cutAt?]
      cases hc : reader (c :: s) with
      | some rest =>
          refine iff_of_false (by simp) fun h => ?_
          rw [h _ List.suffix_rfl] at hc
          cases hc
      | none =>
          simp only [Option.map_eq_none_iff, ih, List.suffix_cons_iff, forall_eq_or_imp, hc, true_and]

/-- Without `</` no end tag is found. -/
theorem cutAt?_endTag_eq_none {s : Text} (hs : contains s ['<', '/'] = false) (name : Text) :
    cutAt? (RawText.afterSpacedEndTag? name) s = none := by
  rw [cutAt?_eq_none_iff]
  rintro b ⟨a, rfl⟩
  have hnone : after? ['<', '/'] b = none := by
    rw [after?_eq_none_iff]
    rintro r rfl
    exact (contains_eq_false_iff _ _).1 hs a r (by simp)
  rw [RawText.afterSpacedEndTag?, hnone]
  rfl

theorem afterSpacedEndTag?_endTagText {name : Text} (h : name ∈ RawText.names) (r : Text) :
    RawText.afterSpacedEndTag? name (endTagText name ++ r) = some r := by
  simp only [RawText.names, List.mem_cons, List.not_mem_nil, or_false] at h
  rcases h with rfl | rfl <;> rfl

theorem afterName?_append_stop {name : Text} {c : CodePoint}
    (hc : ∀ a ∈ name, RawText.isCaseOf a c = false) (s r : Text) :
    RawText.afterName? name (s ++ c :: r) = (RawText.afterName? name s).map (· ++ c :: r) := by
  induction name generalizing s with
  | nil => rfl
  | cons a name ih =>
      cases s with
      | nil =>
          show RawText.afterName? (a :: name) (c :: r) = none
          rw [RawText.afterName?, hc a List.mem_cons_self]
          rfl
      | cons d s =>
          rw [List.cons_append, RawText.afterName?, RawText.afterName?,
            ih (fun x hx => hc x (List.mem_cons_of_mem a hx)) s]
          split <;> rfl

/-- A `<` behind a text does not finish an end tag that has begun in the text. -/
theorem afterSpacedEndTag?_append {name s : Text} (hname : name ∈ RawText.names) (hs : s ≠ [])
    (hnone : RawText.afterSpacedEndTag? name s = none) (r : Text) :
    RawText.afterSpacedEndTag? name (s ++ char '<' :: r) = none := by
  obtain ⟨d, s, rfl⟩ := List.exists_cons_of_ne_nil hs
  by_cases hd : d = '<'
  · subst hd
    have hcase : ∀ a ∈ name, RawText.isCaseOf a '<' = false := by
      simp only [RawText.names, List.mem_cons, List.not_mem_nil, or_false] at hname
      rcases hname with rfl | rfl <;> decide
    have hslash : ∀ t : Text, after? ['<', '/'] ('<' :: t) = after? ['/'] t := fun t => by
      simp [after?]
    simp only [RawText.afterSpacedEndTag?, RawText.afterClose?, List.cons_append, hslash,
      after?_append_stop (show char '<' ∉ [char '/'] by decide)] at hnone ⊢
    cases hopen : after? ['/'] s with
    | none => rfl
    | some t =>
        rw [hopen] at hnone
        simp only [Option.map_some, Option.bind_eq_bind, Option.bind_some] at hnone ⊢
        rw [trimLeft_append_stop (by decide), afterName?_append_stop hcase]
        cases hread : RawText.afterName? name (trimLeft t) with
        | none => rfl
        | some u =>
            rw [hread, Option.bind_some] at hnone
            rw [Option.map_some, Option.bind_some, trimLeft_append_stop (by decide),
              after?_append_stop (by decide), hnone, Option.map_none]
  · rw [RawText.afterSpacedEndTag?, List.cons_append, after?_cons_of_ne _ _ fun e => hd e.symm]
    rfl

/-- Raw text is read up to the end tag behind it, when no such tag ends in it. -/
theorem next_rawText {name s : Text} (hname : name ∈ RawText.names)
    (hs : cutAt? (RawText.afterSpacedEndTag? name) s = none) (last : Bool) (p : Position)
    (r : Text) : Step.next last (.raw name) p (s ++ endTagText name ++ r)
      = .ok (.go [Step.plain s, .close name] .markup r) := by
  have hcut : cutAt? (RawText.afterSpacedEndTag? name) (s ++ (endTagText name ++ r))
      = some (s, endTagText name, r) := by
    have hfront : ∀ a b, s = a ++ b → b ≠ [] →
        RawText.afterSpacedEndTag? name (b ++ (endTagText name ++ r)) = none := fun a b hab hb =>
      afterSpacedEndTag?_append hname hb (cutAt?_eq_none_iff.1 hs b ⟨a, hab.symm⟩) _
    have key := cutAt?_append hfront (afterSpacedEndTag?_endTagText hname r) (by simp [endTagText])
    rwa [take_length_sub] at key
  have hascii : ((endTagText name).all fun c => isBlank c || c.toNat < 0x80) = true := by
    simp only [RawText.names, List.mem_cons, List.not_mem_nil, or_false] at hname
    rcases hname with rfl | rfl <;> decide
  rw [List.append_assoc, Step.next, Step.inRawText, hcut]
  simp only
  rw [if_pos hascii]

theorem readsAs_rawText {name s : Text} (hname : name ∈ RawText.names)
    (hs : cutAt? (RawText.afterSpacedEndTag? name) s = none) (last : Bool) (p : Position)
    (r : Text) : ReadsAs last (.raw name) .markup p (s ++ endTagText name) [] r :=
  readsAs_of_next (by simp [endTagText]) (next_rawText hname hs last p r)

theorem cutAt?_endTag_of_not_mem {s : Text} (h : char '<' ∉ s) (name : Text) :
    cutAt? (RawText.afterSpacedEndTag? name) s = none :=
  cutAt?_endTag_eq_none (contains_eq_false_of_not_mem (by simp) h) name

/-! ## Documents -/

theorem endsRunning_source {t : OpenTag} (s : Text) : EndsRunning (t.source ++ s) :=
  Or.inr ⟨t.inside ++ [char '>'] ++ s, by simp [OpenTag.source]⟩

theorem endsRunning_endTagText (name s : Text) : EndsRunning (endTagText name ++ s) :=
  Or.inr ⟨[char '/'] ++ name ++ [char '>'] ++ s, by simp [endTagText]⟩

/-- The source of a document is read as the start tags of its elements. -/
theorem Document.WellFormed.readsAs_source {d : Document} (h : d.WellFormed) (last : Bool)
    (p : Position) {r : Text} (hr : EndsRunning r) :
    ReadsAs last .markup .markup p d.source (d.tagsFrom p) r := by
  induction h generalizing p r with
  | text hs => exact readsAs_running hs hr last p
  | @element before tag content rest hb ht hn hc hrest ihc ihr =>
      have hmode : tag.contentMode = .markup := OpenTag.contentMode_of_not_mem hn
      have h₁ := (readsAs_running hb (endsRunning_source _) last p).append
        (readsAs_openTag ht last _ (content.source ++ (endTagText tag.name ++ (rest.source ++ r))))
      rw [hmode] at h₁
      have h₂ := h₁.append (ihc _ (endsRunning_endTagText _ _))
      have h₃ := h₂.append (readsAs_endTag ht.name last _ _)
      have h₄ := h₃.append (ihr _ hr)
      simpa [Document.source, Document.tagsFrom, Position.advance_append] using h₄
  | @raw before tag css rest hb ht hn hcss hrest ihr =>
      have hmode : tag.contentMode = .raw tag.name := OpenTag.contentMode_of_mem hn
      have h₁ := (readsAs_running hb (endsRunning_source _) last p).append
        (readsAs_openTag ht last _ (css ++ endTagText tag.name ++ (rest.source ++ r)))
      rw [hmode] at h₁
      have h₂ := h₁.append (readsAs_rawText hn (cutAt?_endTag_of_not_mem hcss tag.name) last _ _)
      have h₃ := h₂.append (ihr _ hr)
      simpa [Document.source, Document.tagsFrom, Position.advance_append] using h₃

/-- A source that the first pass reads to its end has the tokens of that pass. -/
theorem tokens_of_readsTokens {s : Text} {ts : List Token}
    (h : ReadsTokens false .markup .markup .origin s ts []) : tokens s = .ok ts := by
  have hend : ∀ last p, Cursor.pass last ⟨.markup, p, []⟩ = .ok ([], ⟨.markup, p, []⟩) := by
    intro last p
    rw [Cursor.pass]
    rfl
  rw [ReadsTokens, List.append_nil, hend] at h
  have hfirst : (Cursor.start s).pass false
      = .ok (ts, ⟨.markup, Position.origin.advance s, []⟩) := by
    rw [Cursor.start, h]
    simp [Except.map]
  rw [tokens, hfirst]
  simp [bind, Except.bind, hend]

/-- The start tags among the tokens of a document are those of its elements. -/
theorem Document.WellFormed.tokens_source {d : Document} (h : d.WellFormed) :
    ∃ ts, tokens d.source = .ok ts ∧ ts.filterMap Token.opened? = d.tagsFrom .origin := by
  obtain ⟨ts, htags, hpass⟩ := h.readsAs_source false .origin (Or.inl rfl)
  exact ⟨ts, tokens_of_readsTokens hpass, htags⟩

end Stencil.Html
