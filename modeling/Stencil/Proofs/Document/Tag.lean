import Mathlib.Data.List.Basic
import Stencil.Proofs.Document.Basic
import Stencil.Proofs.Text.CodePoint
import Stencil.Proofs.Text.Search

set_option autoImplicit false

/-! # Reading the tags of a document

A well-formed start tag is read in three ways: by the reader of start tags (`read_inside`), by
the search for the text of a start tag (`startText?_source`), and as a mark inside another
element (`readMark?_source`). All three find the same end, since the name of the tag is
followed by a blank or by `>`, and every quote in it is closed. What stands between the quotes
does not matter for that, so most of this is said of delimited tags.
-/

namespace Stencil.Html

open Text

/-! ## Characters of a tag -/

theorem toNat_lt_of_isElementNameChar {c : CodePoint} (h : isElementNameChar c = true) :
    c.toNat < 128 := by
  simp only [isElementNameChar, isLower_iff, isDigit_iff, List.elem_eq_mem, Bool.or_eq_true,
    decide_eq_true_eq, List.mem_cons, List.not_mem_nil, or_false] at h
  rcases h with (⟨-, h⟩ | ⟨-, h⟩) | rfl | rfl | rfl | rfl
  · exact Nat.lt_of_le_of_lt h (by decide)
  · exact Nat.lt_of_le_of_lt h (by decide)
  all_goals decide

theorem isElementNameChar_of_mem {s : Text} (h : isElementName s = true) :
    ∀ c ∈ s, isElementNameChar c = true := by
  cases s with
  | nil => simp [isElementName] at h
  | cons a s =>
      simp only [isElementName, Bool.and_eq_true, List.all_eq_true] at h
      intro c hc
      rcases List.mem_cons.1 hc with rfl | hc
      · simp [isElementNameChar, h.1]
      · exact h.2 c hc

/-- A fact about the characters of names is checked on ASCII, one character after the other. -/
theorem of_isElementNameChar (p : CodePoint → Prop)
    (hp : ∀ n < 128, isElementNameChar (CodePoint.ofNat n) = true → p (CodePoint.ofNat n))
    {c : CodePoint} (h : isElementNameChar c = true) : p c := by
  have hpc := hp c.toNat (toNat_lt_of_isElementNameChar h)
  rw [CodePoint.ofNat_toNat] at hpc
  exact hpc h

theorem forall_mem_name (p : CodePoint → Prop)
    (hp : ∀ n < 128, isElementNameChar (CodePoint.ofNat n) = true → p (CodePoint.ofNat n))
    {s : Text} (h : isElementName s = true) : ∀ c ∈ s, p c := fun c hc =>
  of_isElementNameChar p hp (isElementNameChar_of_mem h c hc)

/-- The name of an element begins with a letter. -/
theorem exists_cons_of_isElementName {s : Text} (h : isElementName s = true) :
    ∃ c r, s = c :: r ∧ c.isAlpha = true := by
  cases s with
  | nil => simp [isElementName] at h
  | cons c r =>
      simp only [isElementName, Bool.and_eq_true] at h
      exact ⟨c, r, rfl, by rw [isAlpha_of_isLower h.1]⟩

theorem isNameChar_of_mem {s : Text} (h : isElementName s = true) :
    ∀ c ∈ s, StartTag.isNameChar c = true :=
  forall_mem_name (fun c => StartTag.isNameChar c = true) (by decide) h

theorem isMarkNameChar_of_mem {s : Text} (h : isElementName s = true) :
    ∀ c ∈ s, isMarkNameChar c = true :=
  forall_mem_name (fun c => isMarkNameChar c = true) (by decide) h

theorem isRunChar_of_mem {s : Text} (h : isElementName s = true) :
    ∀ c ∈ s, isRunChar c = true :=
  forall_mem_name (fun c => isRunChar c = true) (by decide) h

theorem isEndNameChar_of_mem {s : Text} (h : isElementName s = true) :
    ∀ c ∈ s, Token.isEndNameChar c = true :=
  forall_mem_name (fun c => Token.isEndNameChar c = true) (by decide) h

theorem not_isBlank_of_mem {s : Text} (h : isElementName s = true) :
    ∀ c ∈ s, isBlank c = false :=
  forall_mem_name (fun c => isBlank c = false) (by decide) h

theorem not_endsPiece_of_mem {s : Text} (h : isElementName s = true) :
    ∀ c ∈ s, StartTag.endsPiece c = false :=
  forall_mem_name (fun c => StartTag.endsPiece c = false) (by decide) h

theorem not_mem_of_isElementName {s : Text} {a : CodePoint} (h : isElementName s = true)
    (ha : isElementNameChar a = false) : a ∉ s := by
  intro hm
  rw [isElementNameChar_of_mem h a hm] at ha
  cases ha

theorem lowerFrom_eq_self {s : Text} (h : ∀ c ∈ s, c ≠ 'Σ' ∧ lowerChar c = [c])
    (before : Text) : lowerFrom before s = s := by
  induction s generalizing before with
  | nil => rfl
  | cons c s ih =>
      obtain ⟨hne, hlow⟩ := h c (by simp)
      rw [lowerFrom, if_neg hne, hlow, ih fun x hx => h x (by simp [hx])]
      rfl

theorem lower_eq_self {s : Text} (h : isElementName s = true) : lower s = s :=
  lowerFrom_eq_self (forall_mem_name (fun c => c ≠ 'Σ' ∧ lowerChar c = [c]) (by decide) h) []

/-- What the blanks inside a tag are: they end a name, and they are neither quotes nor marks. -/
theorem eq_of_isIndent {c : CodePoint} (h : isIndent c = true) :
    c = ' ' ∨ c = '\n' ∨ c = '\t' ∨ c = '\x0c' ∨ c = '\r' := by
  simpa [isIndent] using h

theorem isBlank_of_isIndent {c : CodePoint} (h : isIndent c = true) : isBlank c = true := by
  rcases eq_of_isIndent h with rfl | rfl | rfl | rfl | rfl <;> rfl

/-- A written tail is blanks, and then a slash if the tag closes itself. -/
theorem OpenTag.IsDelimited.exists_gap {t : OpenTag} (h : t.IsDelimited) :
    ∃ g, IsGap g ∧ t.tail = g ++ if t.closesItself then [char '/'] else [] := by
  rcases h.tail with hgap | ⟨hlast, hgap⟩
  · refine ⟨t.tail, hgap, ?_⟩
    have hopen : t.closesItself = false := by
      rw [OpenTag.closesItself, beq_eq_false_iff_ne]
      intro e
      exact absurd (hgap '/' (List.mem_of_getLast? e)) (by decide)
    simp [hopen]
  · refine ⟨_, hgap, ?_⟩
    rw [OpenTag.closesItself, hlast]
    exact (List.dropLast_append_getLast? _ hlast).symm

theorem OpenTag.IsWritten.exists_gap {t : OpenTag} (h : t.IsWritten) :
    ∃ g, IsGap g ∧ t.tail = g ++ if t.closesItself then [char '/'] else [] :=
  h.isDelimited.exists_gap

/-- Whether a character ends the name of a tag. -/
def EndsName (c : CodePoint) : Prop := c = '>' ∨ c = '/' ∨ isIndent c = true

theorem exists_trailer_cons {t : OpenTag} (h : t.IsDelimited) (r : Text) :
    ∃ c s, t.trailer ++ char '>' :: r = c :: s ∧ EndsName c := by
  have hg : ∀ (g s : Text), IsGap g → g ≠ [] → ∃ c r, g ++ s = c :: r ∧ EndsName c := by
    intro g s hg hne
    cases g with
    | nil => exact absurd rfl hne
    | cons c g => exact ⟨c, g ++ s, rfl, Or.inr (Or.inr (hg c (by simp)))⟩
  cases ha : t.attrs with
  | nil =>
      obtain ⟨g, hgap, htail⟩ := h.exists_gap
      have hsource : t.trailer ++ char '>' :: r
          = g ++ ((if t.closesItself then [char '/'] else []) ++ char '>' :: r) := by
        simp [OpenTag.trailer, ha, htail]
      rw [hsource]
      by_cases hnil : g = []
      · rw [hnil]
        cases t.closesItself with
        | true => exact ⟨'/', _, rfl, Or.inr (Or.inl rfl)⟩
        | false => exact ⟨'>', _, rfl, Or.inl rfl⟩
      · exact hg g _ hgap hnil
  | cons a as =>
      have hw := h.attrs a (by simp [ha])
      simpa [OpenTag.trailer, ha, QuotedAttr.source] using hg a.gap _ hw.gap hw.gap_ne_nil

/-- Reading a name stops where the name of a tag ends. -/
theorem takeWhile_name {p : CodePoint → Bool} {t : OpenTag} (h : t.IsDelimited) (r : Text)
    (hname : ∀ c ∈ t.name, p c = true) (hstop : ∀ c, EndsName c → p c = false) :
    (t.inside ++ char '>' :: r).takeWhile p = t.name ∧
      (t.inside ++ char '>' :: r).dropWhile p = t.trailer ++ char '>' :: r := by
  obtain ⟨c, s, hs, hc⟩ := exists_trailer_cons h r
  rw [OpenTag.inside, List.append_assoc, hs]
  exact ⟨takeWhile_append_cons s hname (hstop c hc), dropWhile_append_cons s hname (hstop c hc)⟩

/-! ## The reader of start tags -/

theorem unescape_eq_self {s : Text} (h : char '&' ∉ s) : CharRef.unescape s = s := by
  unfold CharRef.unescape
  induction s with
  | nil => rfl
  | cons c s ih =>
      simp only [List.mem_cons, not_or] at h
      rw [CharRef.unescapeFrom, ih h.2]
      exact fun e => h.1 e.symm

theorem skipGap_cons {c : CodePoint} (s : Text) (hb : isBlank c = false) (hs : c ≠ '/') :
    StartTag.skipGap (c :: s) = c :: s := by
  unfold StartTag.skipGap
  split
  · rename_i h
    cases h
  · rename_i h
    exact h.symm
  · rename_i h
    cases h
    rw [if_neg (by simp [hb, hs])]

theorem skipGap_append {g : Text} (hg : IsGap g) (s : Text) :
    StartTag.skipGap (g ++ s) = StartTag.skipGap s := by
  induction g with
  | nil => rfl
  | cons c g ih =>
      have hc : isIndent c = true := hg c (by simp)
      have hne : c ≠ '/' := by
        rcases eq_of_isIndent hc with rfl | rfl | rfl | rfl | rfl <;> decide
      rw [List.cons_append]
      conv_lhs => unfold StartTag.skipGap
      split
      · rename_i h
        cases h
      · rename_i h
        exact absurd (List.cons.inj h).1 hne
      · rename_i h
        cases h
        rw [if_pos (by simp [isBlank_of_isIndent hc])]
        exact ih fun x hx => hg x (by simp [hx])

theorem trimLeft_cons {c : CodePoint} (s : Text) (h : isBlank c = false) :
    trimLeft (c :: s) = c :: s := by
  simp [trimLeft, h]

/-- The value of an attribute between quotes of either kind. -/
theorem readValue?_quoted {value : Text} {q : CodePoint} (hq : StartTag.isQuote q = true)
    (hvalue : q ∉ value) (r : Text) :
    StartTag.readValue? ([char '=', q] ++ value ++ q :: r) = some (value, true, r) := by
  have hblank : isBlank q = false ∧ q ≠ '=' := by
    rw [StartTag.isQuote, Bool.or_eq_true, beq_iff_eq, beq_iff_eq] at hq
    rcases hq with rfl | rfl <;> decide
  have hcut : cut? [q] (value ++ q :: r) = some (value, r) := cut?_char hvalue
  rw [show ([char '=', q] ++ value ++ q :: r : Text) = char '=' :: q :: (value ++ q :: r) by simp,
    StartTag.readValue?, trimLeft_cons _ (by decide)]
  show StartTag.readValueAfter (some q == some (char '='))
    ((q :: (value ++ q :: r)).dropWhile (· == '=')) = _
  rw [List.dropWhile_cons_of_neg (by simpa using hblank.2), StartTag.readValueAfter,
    trimLeft_cons _ hblank.1]
  simp only [hcut]
  exact if_pos hq

theorem exists_cons_of_isQuotedAttrChar {name : Text} (hne : name ≠ [])
    (h : ∀ c ∈ name, isQuotedAttrChar c = true) :
    ∃ c r, name = c :: r ∧ isBlank c = false ∧ c ≠ '/' ∧ c ≠ '>' := by
  obtain ⟨c, r, rfl⟩ := List.exists_cons_of_ne_nil hne
  have hc := h c List.mem_cons_self
  simp only [isQuotedAttrChar, StartTag.isAttrNameChar, Bool.and_eq_true, Bool.not_eq_true',
    Bool.or_eq_false_iff, beq_eq_false_iff_ne] at hc
  exact ⟨c, r, rfl, hc.1.1.1.1.1.1, hc.1.1.1.1.1.2, hc.1.1.1.2⟩

/-- An attribute between quotes of either kind. -/
theorem readAttr?_quoted {name value : Text} {q : CodePoint} (hne : name ≠ [])
    (hname : ∀ c ∈ name, isQuotedAttrChar c = true) (hq : StartTag.isQuote q = true)
    (hvalue : q ∉ value) (r : Text) :
    StartTag.readAttr? (name ++ [char '=', q] ++ value ++ q :: r)
      = some ((lower name, value), true, r) := by
  obtain ⟨c, n, rfl, hb, hs, hg⟩ := exists_cons_of_isQuotedAttrChar hne hname
  have hchars : ∀ x ∈ n, StartTag.isAttrNameChar x = true := by
    intro x hx
    have := hname x (List.mem_cons_of_mem c hx)
    simp only [isQuotedAttrChar, Bool.and_eq_true] at this
    exact this.1.1.1
  have hopen : StartTag.opensAttrName c = true := by simp [StartTag.opensAttrName, hb, hs, hg]
  have hv := readValue?_quoted hq hvalue r
  simp only [List.cons_append, List.append_assoc, List.nil_append] at hv ⊢
  rw [StartTag.readAttr?, if_pos hopen]
  simp only
  rw [takeWhile_append_cons _ hchars (by decide), dropWhile_append_cons _ hchars (by decide), hv]

namespace QuotedAttr

variable {a : QuotedAttr}

theorem WellFormed.not_mem_value (h : a.WellFormed) {c : CodePoint} (hc : isValueChar c = false) :
    c ∉ a.value := by
  intro hm
  rw [h.value c hm] at hc
  cases hc

theorem IsDelimited.not_mem_name (h : a.IsDelimited) {c : CodePoint}
    (hc : isQuotedAttrChar c = false) :
    c ∉ a.name := by
  intro hm
  rw [h.name c hm] at hc
  cases hc

theorem IsDelimited.exists_name_cons (h : a.IsDelimited) :
    ∃ c r, a.name = c :: r ∧ isBlank c = false ∧ c ≠ '/' ∧ c ≠ '>' :=
  exists_cons_of_isQuotedAttrChar h.name_ne_nil h.name

theorem IsDelimited.readAttr? (h : a.IsDelimited) (r : Text) :
    StartTag.readAttr? (a.name ++ [char '=', char '"'] ++ a.value ++ char '"' :: r)
      = some ((lower a.name, a.value), true, r) :=
  readAttr?_quoted h.name_ne_nil h.name rfl h.value r

end QuotedAttr

theorem readAttrs_of_none {ready : Bool} {s : Text}
    (h : StartTag.readAttr? (StartTag.skipGap s) = none) :
    StartTag.readAttrs ready s = ([], StartTag.skipGap s) := by
  rw [StartTag.readAttrs]
  split
  · split
    · rename_i hread
      rw [h] at hread
      cases hread
    · rfl
  · rfl

theorem readAttrs_of_some {ready next : Bool} {s r : Text} {attr : Text × Text}
    (hgap : (StartTag.skipGap s).length < s.length)
    (h : StartTag.readAttr? (StartTag.skipGap s) = some (attr, next, r)) :
    StartTag.readAttrs ready s
      = (attr :: (StartTag.readAttrs next r).1, (StartTag.readAttrs next r).2) := by
  rw [StartTag.readAttrs]
  simp only [hgap, decide_true, Bool.or_true, if_true]
  split
  · rename_i hread
    rw [h] at hread
    cases hread
    rfl
  · rename_i hread
    rw [h] at hread
    cases hread

/-- Attributes are read one by one up to a text that is no attribute. -/
theorem readAttrs_trailer {attrs : List QuotedAttr} {g e : Text}
    (hattrs : ∀ a ∈ attrs, a.IsDelimited) (hg : IsGap g) (hskip : StartTag.skipGap e = e)
    (hend : StartTag.readAttr? e = none) (ready : Bool) :
    StartTag.readAttrs ready (attrs.flatMap QuotedAttr.source ++ g ++ e)
      = (attrs.map fun a => (lower a.name, a.value), e) := by
  induction attrs generalizing ready with
  | nil =>
      have hgap : StartTag.skipGap (g ++ e) = e := by rw [skipGap_append hg, hskip]
      rw [List.flatMap_nil, List.nil_append, readAttrs_of_none (by rw [hgap, hend]), hgap]
      rfl
  | cons a attrs ih =>
      have ha := hattrs a (by simp)
      obtain ⟨c, n, hn, hb, hs, -⟩ := ha.exists_name_cons
      set rest := attrs.flatMap QuotedAttr.source ++ g ++ e with hrest
      set body := a.name ++ [char '=', char '"'] ++ a.value ++ char '"' :: rest with hbody
      have hsource : (a :: attrs).flatMap QuotedAttr.source ++ g ++ e = a.gap ++ body := by
        simp [QuotedAttr.source, hrest, hbody]
      have hgap : StartTag.skipGap (a.gap ++ body) = body := by
        rw [skipGap_append ha.gap, hbody, hn]
        exact skipGap_cons _ hb hs
      have hlt : body.length < (a.gap ++ body).length := by
        have hlen : (a.gap ++ body).length = a.gap.length + body.length := List.length_append
        have := List.length_pos_iff.2 ha.gap_ne_nil
        omega
      have hread : StartTag.readAttr? body
          = some ((lower a.name, a.value), true, rest) := ha.readAttr? rest
      rw [hsource, readAttrs_of_some (by rw [hgap]; exact hlt) (by rw [hgap]; exact hread),
        ih fun x hx => hattrs x (by simp [hx])]
      rfl

/-- The attributes of a start tag with the references in their values replaced. -/
def OpenTag.unescapedPairs (t : OpenTag) : List (Text × Text) :=
  t.attrs.map fun a => (lower a.name, CharRef.unescape a.value)

theorem OpenTag.IsWritten.unescapedPairs {t : OpenTag} (h : t.IsWritten) :
    t.unescapedPairs = t.pairs := by
  refine List.map_congr_left fun a ha => ?_
  rw [unescape_eq_self ((h.attrs a ha).not_mem_value (by decide))]

/-- Attributes without a number that is too long are read with the references replaced. -/
theorem ofAttrs_of_forall {attrs : List (Text × Text)}
    (h : ∀ attr ∈ attrs, CharRef.overlongIn? attr.2 = none)
    (reading : List (Text × Text) → StartTag.Reading) :
    StartTag.Reading.ofAttrs attrs reading
      = reading (attrs.map fun attr => (attr.1, CharRef.unescape attr.2)) := by
  have hnone : attrs.findSome? (fun attr => CharRef.overlongIn? attr.2) = none :=
    List.findSome?_eq_none_iff.2 h
  rw [StartTag.Reading.ofAttrs, hnone]

theorem OpenTag.IsDelimited.ofAttrs {t : OpenTag} (h : t.IsDelimited)
    (reading : List (Text × Text) → StartTag.Reading) :
    StartTag.Reading.ofAttrs t.pairs reading = reading t.unescapedPairs := by
  rw [ofAttrs_of_forall]
  · rw [OpenTag.pairs, OpenTag.unescapedPairs, List.map_map]
    rfl
  · intro attr hattr
    obtain ⟨a, ha, rfl⟩ := List.mem_map.1 hattr
    exact (h.attrs a ha).number

/-- A start tag is read up to its own end, whatever its values hold. -/
theorem OpenTag.IsDelimited.read_inside {t : OpenTag} (h : t.IsDelimited) (r : Text) :
    StartTag.read (t.inside ++ char '>' :: r)
        = .tag ⟨t.name, t.unescapedPairs, t.closesItself⟩ r := by
  have hname := takeWhile_name h r (isNameChar_of_mem h.name) (by
    rintro c (rfl | rfl | hc)
    · rfl
    · rfl
    · rcases eq_of_isIndent hc with rfl | rfl | rfl | rfl | rfl <;> rfl)
  have hready : (t.name.getLast?.map StartTag.endsPiece).getD false = false := by
    cases hl : t.name.getLast? with
    | none => rfl
    | some c => exact not_endsPiece_of_mem h.name c (List.mem_of_getLast? hl)
  obtain ⟨g, hg, htail⟩ := h.exists_gap
  have hattrs := fun e => readAttrs_trailer (e := e) h.attrs hg
  have hsource : t.trailer ++ char '>' :: r = t.attrs.flatMap QuotedAttr.source ++ g
      ++ ((if t.closesItself then [char '/'] else []) ++ char '>' :: r) := by
    simp [OpenTag.trailer, htail]
  rw [StartTag.read]
  simp only [hname.1, hname.2, hready, hsource]
  cases t.closesItself with
  | true =>
      simp only [if_true, List.singleton_append]
      rw [hattrs _ (by unfold StartTag.skipGap; rfl) rfl]
      simp only [lower_eq_self h.name]
      exact h.ofAttrs _
  | false =>
      simp only [Bool.false_eq_true, if_false, List.nil_append]
      rw [hattrs _ (skipGap_cons _ (by decide) (by decide)) rfl]
      simp only [lower_eq_self h.name]
      exact h.ofAttrs _

/-- A start tag is read as it is written. -/
theorem OpenTag.IsWritten.read_inside {t : OpenTag} (h : t.IsWritten) (r : Text) :
    StartTag.read (t.inside ++ char '>' :: r) = .tag ⟨t.name, t.pairs, t.closesItself⟩ r := by
  rw [h.isDelimited.read_inside, h.unescapedPairs]

/-! ## The search for the end of a tag -/

/-- The search for the end of a tag passes over a text: it is no end itself, and every quote
that opens in it is closed in it. -/
def IsPassedOver (s : Text) : Prop :=
  ∀ r, cutTagEnd? none (s ++ r) = (cutTagEnd? none r).map fun found => (s ++ found.1, found.2)

theorem IsPassedOver.append {s t : Text} (hs : IsPassedOver s) (ht : IsPassedOver t) :
    IsPassedOver (s ++ t) := by
  intro r
  rw [List.append_assoc, hs, ht, Option.map_map]
  simp [Function.comp_def]

theorem isPassedOver_of_forall {s : Text} (h : ∀ c ∈ s, c ≠ '>' ∧ c ≠ '"' ∧ c ≠ '\'') :
    IsPassedOver s := by
  intro r
  induction s with
  | nil => simp
  | cons c s ih =>
      obtain ⟨h₁, h₂, h₃⟩ := h c (by simp)
      rw [List.cons_append, cutTagEnd?]
      simp only [h₁, h₂, h₃, decide_false, Bool.or_false, Bool.false_eq_true, if_false]
      rw [ih fun x hx => h x (by simp [hx]), Option.map_map]
      rfl

theorem cutTagEnd?_quoted {q : CodePoint} {v : Text} (h : q ∉ v) (r : Text) :
    cutTagEnd? (some q) (v ++ q :: r)
      = (cutTagEnd? none r).map fun found => (v ++ q :: found.1, found.2) := by
  induction v with
  | nil =>
      rw [List.nil_append, cutTagEnd?]
      simp only [if_true]
      rfl
  | cons c v ih =>
      simp only [List.mem_cons, not_or] at h
      have hc : ¬ c = q := fun e => h.1 e.symm
      rw [List.cons_append, cutTagEnd?]
      simp only [hc, if_false]
      rw [ih h.2, Option.map_map]
      rfl

theorem isPassedOver_quoted {q : CodePoint} {v : Text} (hq : StartTag.isQuote q = true)
    (h : q ∉ v) :
    IsPassedOver ([q] ++ v ++ [q]) := by
  intro r
  have hv := cutTagEnd?_quoted h r
  rw [show ([q] ++ v ++ [q] ++ r : Text) = q :: (v ++ q :: r) by simp, cutTagEnd?]
  rw [StartTag.isQuote, Bool.or_eq_true, beq_iff_eq, beq_iff_eq] at hq
  have hend : ¬ q = '>' := by rcases hq with rfl | rfl <;> decide
  have hopen : (decide (q = '"') || decide (q = '\'')) = true := by
    rcases hq with rfl | rfl <;> rfl
  simp only [hend, if_false, hopen, if_true]
  rw [hv, Option.map_map]
  simp [Function.comp_def]

theorem isPassedOver_gap {s : Text} (h : IsGap s) : IsPassedOver s := by
  apply isPassedOver_of_forall
  intro c hc
  rcases eq_of_isIndent (h c hc) with rfl | rfl | rfl | rfl | rfl <;> decide

theorem isPassedOver_flatMap {α : Type} {f : α → Text} {l : List α}
    (h : ∀ a ∈ l, IsPassedOver (f a)) : IsPassedOver (l.flatMap f) := by
  induction l with
  | nil => intro r; simp
  | cons a l ih =>
      rw [List.flatMap_cons]
      exact (h a List.mem_cons_self).append (ih fun x hx => h x (List.mem_cons_of_mem a hx))

/-- An attribute is passed over from its name on. -/
theorem isPassedOver_assignment {name value : Text} (hname : ∀ c ∈ name, isQuotedAttrChar c = true)
    (hvalue : char '"' ∉ value) :
    IsPassedOver (name ++ [char '=', char '"'] ++ value ++ [char '"']) := by
  have hfront : IsPassedOver (name ++ [char '=']) := by
    apply isPassedOver_of_forall
    intro c hc
    rcases List.mem_append.1 hc with hc | hc
    · have := hname c hc
      simp only [isQuotedAttrChar, StartTag.isAttrNameChar, Bool.and_eq_true, Bool.not_eq_true',
        Bool.or_eq_false_iff, beq_eq_false_iff_ne, bne_iff_ne] at this
      exact ⟨this.1.1.1.2, this.1.2, this.2⟩
    · rw [List.mem_singleton.1 hc]
      decide
  simpa using hfront.append (isPassedOver_quoted rfl hvalue)

theorem isPassedOver_attr {a : QuotedAttr} (h : a.IsDelimited) : IsPassedOver a.source := by
  simpa [QuotedAttr.source] using
    (isPassedOver_gap h.gap).append (isPassedOver_assignment h.name h.value)

theorem isPassedOver_trailer {t : OpenTag} (h : t.IsDelimited) : IsPassedOver t.trailer := by
  have hattrs : IsPassedOver (t.attrs.flatMap QuotedAttr.source) :=
    isPassedOver_flatMap fun a ha => isPassedOver_attr (h.attrs a ha)
  obtain ⟨g, hg, htail⟩ := h.exists_gap
  have hslash : IsPassedOver (if t.closesItself then ['/'] else []) := by
    apply isPassedOver_of_forall
    cases t.closesItself <;> decide
  have key := hattrs.append ((isPassedOver_gap hg).append hslash)
  rwa [← htail] at key

theorem cutTagEnd?_trailer {t : OpenTag} (h : t.IsDelimited) (r : Text) :
    cutTagEnd? none (t.trailer ++ char '>' :: r) = some (t.trailer, r) := by
  rw [isPassedOver_trailer h]
  simp [cutTagEnd?]

/-! ## Start tags and marks in a source -/

theorem takeWhile_isRunChar {t : OpenTag} (h : t.IsDelimited) (r : Text) :
    (t.inside ++ char '>' :: r).takeWhile isRunChar = t.name := by
  refine (takeWhile_name h r (isRunChar_of_mem h.name) ?_).1
  rintro c (rfl | rfl | hc)
  · rfl
  · rfl
  · simp [isRunChar, isBlank_of_isIndent hc]

theorem takeWhile_isMarkNameChar {t : OpenTag} (h : t.IsDelimited) (r : Text) :
    (t.inside ++ char '>' :: r).takeWhile isMarkNameChar = t.name := by
  refine (takeWhile_name h r (isMarkNameChar_of_mem h.name) ?_).1
  rintro c (rfl | rfl | hc)
  · rfl
  · decide
  · rcases eq_of_isIndent hc with rfl | rfl | rfl | rfl | rfl <;> decide

/-- The text of a start tag is found in a source. -/
theorem startText?_source {t : OpenTag} (h : t.IsDelimited) (r : Text) :
    startText? (t.source ++ r) = some (t.source, r) := by
  obtain ⟨c, n, hn, -⟩ := exists_cons_of_isElementName h.name
  have hlen : t.name.length = n.length + 1 := by rw [hn]; rfl
  have hsource : t.source ++ r = char '<' :: (t.inside ++ char '>' :: r) := by simp [OpenTag.source]
  have hdrop : (t.inside ++ char '>' :: r).drop (n.length + 1) = t.trailer ++ char '>' :: r := by
    rw [← hlen, OpenTag.inside, List.append_assoc, List.drop_left]
  have htake : (t.inside ++ char '>' :: r).take (n.length + 1) = t.name := by
    rw [← hlen, OpenTag.inside, List.append_assoc, List.take_left]
  rw [hsource, startText?, takeWhile_isRunChar h, hlen, startTextFrom?, hdrop,
    cutTagEnd?_trailer h, htake]
  simp [OpenTag.source, OpenTag.inside]

/-- The attributes of a start tag end in a quote. -/
theorem flatMap_source_eq (attrs : List QuotedAttr) :
    attrs.flatMap QuotedAttr.source = []
      ∨ ∃ s, attrs.flatMap QuotedAttr.source = s ++ [char '"'] := by
  induction attrs with
  | nil => exact Or.inl rfl
  | cons a as ih =>
      right
      rw [List.flatMap_cons]
      rcases ih with h | ⟨s, h⟩
      · exact ⟨_, by rw [h, List.append_nil, QuotedAttr.source]⟩
      · exact ⟨a.source ++ s, by rw [h, List.append_assoc]⟩

theorem exists_inside_snoc {t : OpenTag} (h : t.IsDelimited) (hopen : t.closesItself = false) :
    ∃ s c, t.inside = s ++ [c] ∧ c ≠ char '/' := by
  obtain ⟨g, hg, htail⟩ := h.exists_gap
  rw [hopen, if_neg (by decide), List.append_nil] at htail
  rcases List.eq_nil_or_concat t.tail with ht | ⟨g', c, ht⟩
  · rcases flatMap_source_eq t.attrs with ha | ⟨s, ha⟩
    · obtain ⟨c, n, hn, -⟩ := exists_cons_of_isElementName h.name
      refine ⟨t.name.dropLast, t.name.getLast (by simp [hn]), ?_, ?_⟩
      · rw [List.dropLast_concat_getLast, OpenTag.inside, OpenTag.trailer, ha, ht]
        simp
      · intro e
        have hm := List.getLast_mem (l := t.name) (by simp [hn])
        rw [e] at hm
        exact not_mem_of_isElementName h.name (by decide) hm
    · exact ⟨t.name ++ s, '"', by simp [OpenTag.inside, OpenTag.trailer, ha, ht], by decide⟩
  · refine ⟨t.name ++ t.attrs.flatMap QuotedAttr.source ++ g', c, ?_, ?_⟩
    · simp [OpenTag.inside, OpenTag.trailer, ht]
    · have hc := hg c (by simp [← htail, ht])
      rcases eq_of_isIndent hc with rfl | rfl | rfl | rfl | rfl <;> decide

/-- The text of a start tag ends in `/>` when the tag closes itself. -/
theorem endsWith_source {t : OpenTag} (h : t.IsDelimited) :
    endsWith t.source ['/', '>'] = t.closesItself := by
  cases hclose : t.closesItself with
  | true =>
      obtain ⟨g, -, htail⟩ := h.exists_gap
      rw [hclose, if_pos rfl] at htail
      have hsource : t.source
          = char '<' ::
              (t.name ++ t.attrs.flatMap QuotedAttr.source ++ g) ++ [char '/', char '>'] := by
        simp [OpenTag.source, OpenTag.inside, OpenTag.trailer, htail]
      rw [hsource]
      simp [endsWith, startsWith, after?]
  | false =>
      obtain ⟨s, c, hs, hc⟩ := exists_inside_snoc h hclose
      have hc' : ¬ '/' = c := fun e => hc e.symm
      simp [OpenTag.source, hs, endsWith, startsWith, after?, hc']

/-- Trimming what follows the name of a tag takes a blank tail off the attributes. -/
theorem trimRight_trailer {t : OpenTag} (h : ∀ c ∈ t.tail, isBlank c = true) :
    trimRight t.trailer = t.attrs.flatMap QuotedAttr.source := by
  have htail : ∀ c ∈ t.tail.reverse, isBlank c = true := fun c hc => h c (List.mem_reverse.1 hc)
  rw [trimRight, dropEndWhile, OpenTag.trailer, List.reverse_append,
    List.dropWhile_append_of_pos htail]
  rcases flatMap_source_eq t.attrs with ha | ⟨s, ha⟩
  · simp [ha]
  · rw [ha, List.reverse_append, List.reverse_singleton, List.singleton_append,
      List.dropWhile_cons_of_neg (by decide)]
    simp

/-- A well-formed start tag is a mark that does not close itself. -/
theorem readMark?_source {t : OpenTag} (h : t.WellFormed) (index : Nat) (r : Text) :
    readMark? index (t.source ++ r)
      = some ⟨index, index + t.source.length, t.name, false, false⟩ := by
  obtain ⟨c, n, hn, hc⟩ := exists_cons_of_isElementName h.name
  have hsource : t.source ++ r = char '<' :: (t.inside ++ char '>' :: r) := by simp [OpenTag.source]
  have hhead : (t.inside ++ char '>' :: r).head? = some c := by simp [OpenTag.inside, hn]
  have hslash : c ≠ '/' := by
    rintro rfl
    exact absurd hc (by decide)
  have hdrop : (t.inside ++ char '>' :: r).drop t.name.length = t.trailer ++ char '>' :: r := by
    rw [OpenTag.inside, List.append_assoc, List.drop_left]
  have hself : endsWith (trimRight t.trailer) ['/'] = false := by
    rw [trimRight_trailer fun c hc => isBlank_of_isIndent (h.tail c hc)]
    rcases flatMap_source_eq t.attrs with ha | ⟨s, ha⟩
    · rw [ha]
      rfl
    · rw [ha, endsWith_append_singleton]
      rfl
  rw [hsource, readMark?]
  simp only [hhead, beq_iff_eq, Option.some.injEq, hslash, if_false, Option.map_some,
    Option.getD_some, hc, if_true, takeWhile_isMarkNameChar h.isWritten.isDelimited,
    hdrop, cutTagEnd?_trailer h.isWritten.isDelimited, hself]
  simp only [OpenTag.source, List.length_append, List.length_cons, List.length_nil,
    List.cons_append, List.nil_append, Mark.mk.injEq, true_and, and_true]
  refine ⟨?_, by simpa using hslash⟩
  omega

/-- The end tag of an element is a closing mark. -/
theorem readMark?_endTagText {name : Text} (h : isElementName name = true) (index : Nat)
    (r : Text) :
    readMark? index (endTagText name ++ r)
      = some ⟨index, index + (endTagText name).length, name, true, false⟩ := by
  obtain ⟨c, n, hn, hc⟩ := exists_cons_of_isElementName h
  have hsource : endTagText name ++ r = char '<' :: char '/' :: (name ++ char '>' :: r) := by
    simp [endTagText]
  have hname : (name ++ char '>' :: r).takeWhile isMarkNameChar = name :=
    takeWhile_append_cons r (isMarkNameChar_of_mem h) (by decide)
  have hhead : (name ++ char '>' :: r).head? = some c := by simp [hn]
  have hcut : cutTagEnd? none ('>' :: r) = some ([], r) := by simp [cutTagEnd?]
  rw [hsource, readMark?]
  simp only [List.head?_cons, beq_self_eq_true, if_true, List.drop_succ_cons, List.drop_zero,
    hhead, Option.map_some, Option.getD_some, hc, hname, List.drop_left, hcut]
  simp [endTagText, trimRight, dropEndWhile, endsWith, startsWith, after?]
  omega

/-! ## A text is the text of one tag only -/

/-- An attribute begins where the gap before it ends. -/
theorem QuotedAttr.IsDelimited.exists_name {a : QuotedAttr} (ha : a.IsDelimited) (s : Text) :
    ∃ c t, a.source ++ s = a.gap ++ c :: t ∧ isIndent c = false ∧ c ≠ '>' := by
  obtain ⟨c, n, hn, hblank, -, hc⟩ := ha.exists_name_cons
  refine ⟨c, n ++ [char '=', char '"'] ++ a.value ++ [char '"'] ++ s,
      by simp [QuotedAttr.source, hn], ?_, hc⟩
  cases hi : isIndent c with
  | false => rfl
  | true => rw [isBlank_of_isIndent hi] at hblank; cases hblank

theorem QuotedAttr.IsDelimited.not_equals {a : QuotedAttr} (ha : a.IsDelimited) :
    ∀ c ∈ a.name, (c != '=') = true := by
  intro c hc
  have hne : c ≠ '=' := fun e => ha.not_mem_name (by decide) (e ▸ hc)
  simpa using hne

theorem attr_source_inj {a b : QuotedAttr} (ha : a.IsDelimited) (hb : b.IsDelimited) {s t : Text}
    (e : a.source ++ s = b.source ++ t) : a = b ∧ s = t := by
  obtain ⟨c, x, hx, hc, -⟩ := ha.exists_name s
  obtain ⟨d, y, hy, hd, -⟩ := hb.exists_name t
  obtain ⟨hgap, -, -⟩ := append_cons_inj ha.gap hc hb.gap hd (by rw [← hx, e, hy])
  have hrest : a.name ++ char '=' :: (char '"' :: (a.value ++ char '"' :: s))
      = b.name ++ char '=' :: (char '"' :: (b.value ++ char '"' :: t)) := by
    simpa [QuotedAttr.source, hgap] using e
  obtain ⟨hname, -, hrest⟩ :=
    append_cons_inj ha.not_equals (by decide) hb.not_equals (by decide) hrest
  obtain ⟨hvalue, hst⟩ := append_cons_inj_of_not_mem ha.value hb.value (List.cons.inj hrest).2
  exact ⟨by cases a; cases b; simp_all, hst⟩

/-- Where a tag ends, no attribute begins. -/
theorem attr_source_ne {a : QuotedAttr} (ha : a.IsDelimited) {g : Text} (hg : IsGap g)
    (s r : Text) : a.source ++ s ≠ g ++ char '>' :: r := by
  intro e
  obtain ⟨c, x, hx, hi, hc⟩ := ha.exists_name s
  obtain ⟨-, hclose, -⟩ := append_cons_inj ha.gap hi hg (by decide) (hx.symm.trans e)
  exact hc hclose

theorem attrs_inj {as bs : List QuotedAttr} {g h r q : Text} (has : ∀ a ∈ as, a.IsDelimited)
    (hbs : ∀ b ∈ bs, b.IsDelimited) (hg : IsGap g) (hh : IsGap h)
    (e : as.flatMap QuotedAttr.source ++ g ++ char '>' :: r
      = bs.flatMap QuotedAttr.source ++ h ++ char '>' :: q) : as = bs ∧ g = h ∧ r = q := by
  induction as generalizing bs with
  | nil =>
      cases bs with
      | nil =>
          have e' : g ++ char '>' :: r = h ++ char '>' :: q := by simpa using e
          obtain ⟨hgh, -, hrq⟩ := append_cons_inj hg (by decide) hh (by decide) e'
          exact ⟨rfl, hgh, hrq⟩
      | cons b bs =>
          simp only [List.flatMap_cons, List.flatMap_nil, List.nil_append, List.append_assoc] at e
          exact absurd e.symm (attr_source_ne (hbs b (by simp)) hg _ _)
  | cons a as ih =>
      cases bs with
      | nil =>
          simp only [List.flatMap_cons, List.flatMap_nil, List.nil_append, List.append_assoc] at e
          exact absurd e (attr_source_ne (has a (by simp)) hh _ _)
      | cons b bs =>
          simp only [List.flatMap_cons, List.append_assoc] at e
          obtain ⟨rfl, hrest⟩ := attr_source_inj (has a (by simp)) (hbs b (by simp)) e
          rw [← List.append_assoc, ← List.append_assoc] at hrest
          obtain ⟨rfl, hgh, hrq⟩ := ih (fun x hx => has x (by simp [hx]))
            (fun x hx => hbs x (by simp [hx])) hrest
          exact ⟨rfl, hgh, hrq⟩

theorem openTag_source_inj {t u : OpenTag} (ht : t.WellFormed) (hu : u.WellFormed) {r q : Text}
    (e : t.source ++ r = u.source ++ q) : t = u ∧ r = q := by
  have e' : t.inside ++ char '>' :: r = u.inside ++ char '>' :: q := by
    simpa [OpenTag.source] using e
  have hstop : ∀ c, EndsName c → StartTag.isNameChar c = false := by
    rintro c (rfl | rfl | hc)
    · rfl
    · rfl
    · rcases eq_of_isIndent hc with rfl | rfl | rfl | rfl | rfl <;> rfl
  obtain ⟨hnamet, htrailert⟩ :=
    takeWhile_name ht.isWritten.isDelimited r (isNameChar_of_mem ht.name) hstop
  obtain ⟨hnameu, htraileru⟩ :=
    takeWhile_name hu.isWritten.isDelimited q (isNameChar_of_mem hu.name) hstop
  have hname : t.name = u.name := by rw [← hnamet, e', hnameu]
  have htrailer : t.trailer ++ char '>' :: r = u.trailer ++ char '>' :: q := by
    rw [← htrailert, e', htraileru]
  obtain ⟨hattrs, htail, hr⟩ := attrs_inj ht.isWritten.isDelimited.attrs
    hu.isWritten.isDelimited.attrs ht.tail hu.tail
    (by simpa [OpenTag.trailer] using htrailer)
  refine ⟨?_, hr⟩
  cases t
  cases u
  simp_all

end Stencil.Html
