import Mathlib.Tactic.Common
import Stencil.Html.Printer
import Stencil.Html.Region
import Stencil.Html.Selector

set_option autoImplicit false

/-! # Documents

A document is a text in which elements stand, each with a start tag, its content and an end
tag of its own. `Document.source` writes a document as markup. Documents are what the
statements about reading, matching and expanding markup are made for: on them, the tags of a
source are known without reading it.

A start tag keeps the blanks it is written with. The running text in front of an element
belongs to the element, so that a source has one document only.
-/

namespace Stencil.Html

open Text

/-! ## Start tags -/

/-- An attribute as it is written: blanks, the name, and the value between double quotes. -/
structure QuotedAttr where
  gap : Text
  name : Text
  value : Text
  deriving DecidableEq, Repr

/-- The text of an attribute. -/
def QuotedAttr.source (a : QuotedAttr) : Text :=
  a.gap ++ a.name ++ [char '=', char '"'] ++ a.value ++ [char '"']

/-- A start tag as it is written: the name, the attributes and the blanks before `>`. -/
structure OpenTag where
  name : Text
  attrs : List QuotedAttr
  tail : Text
  deriving DecidableEq, Repr

namespace OpenTag

/-- What follows the name of a tag, up to `>`. -/
def trailer (t : OpenTag) : Text := t.attrs.flatMap QuotedAttr.source ++ t.tail

/-- What stands between `<` and `>`. -/
def inside (t : OpenTag) : Text := t.name ++ t.trailer

/-- The text of a start tag. -/
def source (t : OpenTag) : Text := [char '<'] ++ t.inside ++ [char '>']

/-- The attributes of a start tag as they are read. -/
def pairs (t : OpenTag) : List (Text × Text) := t.attrs.map fun a => (lower a.name, a.value)

/-- The attributes a start tag gives its element. -/
def table (t : OpenTag) : Attributes := Table.ofPairs t.pairs

/-- The tag of an element whose start tag is written at a position. -/
def tagAt (t : OpenTag) (p : Position) : Tag := ⟨t.name, t.table, p⟩

/-- Whether a selector takes the elements with this start tag. -/
def selectedBy (sel : Selector) (t : OpenTag) : Bool := sel.selects (t.tagAt .origin)

/-- The start tag of a name without attributes. -/
def bare (name : Text) : OpenTag := ⟨name, [], []⟩

end OpenTag

/-! ## Documents -/

/-- A text, or an element with the text before it and the document after it. -/
inductive Document where
  | text (s : Text)
  | element (before : Text) (tag : OpenTag) (content rest : Document)
  deriving DecidableEq, Repr

namespace Document

/-- A document as markup. -/
def source : Document → Text
  | text s => s
  | element before tag content rest =>
      before ++ tag.source ++ content.source ++ endTagText tag.name ++ rest.source

/-- The document with a text put before it. -/
def prepend (s : Text) : Document → Document
  | text t => text (s ++ t)
  | element before tag content rest => element (s ++ before) tag content rest

/-- Two documents, one after the other. -/
def append : Document → Document → Document
  | text s, d => d.prepend s
  | element before tag content rest, d => element before tag content (rest.append d)

instance : Append Document := ⟨append⟩

@[simp] theorem text_append (s : Text) (d : Document) : text s ++ d = d.prepend s := rfl

@[simp] theorem element_append (before : Text) (tag : OpenTag) (content rest d : Document) :
    element before tag content rest ++ d = element before tag content (rest ++ d) := rfl

@[simp] theorem source_prepend (s : Text) (d : Document) : (d.prepend s).source = s ++ d.source := by
  cases d <;> simp [prepend, source]

@[simp] theorem source_append (d e : Document) : (d ++ e).source = d.source ++ e.source := by
  induction d with
  | text s => simp [source]
  | element before tag content rest _ ih => simp [source, ih]

@[simp] theorem prepend_nil (d : Document) : d.prepend [] = d := by
  cases d <;> rfl

@[simp] theorem prepend_prepend (s t : Text) (d : Document) :
    (d.prepend t).prepend s = d.prepend (s ++ t) := by
  cases d <;> simp [prepend]

@[simp] theorem prepend_append (s : Text) (d e : Document) :
    d.prepend s ++ e = (d ++ e).prepend s := by
  cases d with
  | text t => rw [prepend, text_append, text_append, prepend_prepend]
  | element before tag content rest => rfl

@[simp] theorem append_text_nil (d : Document) : d ++ text [] = d := by
  induction d with
  | text s => simp [prepend]
  | element before tag content rest _ ih => rw [element_append, ih]

theorem append_assoc (d e f : Document) : d ++ e ++ f = d ++ (e ++ f) := by
  induction d with
  | text s => simp
  | element before tag content rest _ ih => simp [ih]

/-- The elements of a document with their content, in the order of their start tags. -/
def elements : Document → List (OpenTag × Document)
  | text _ => []
  | element _ tag content rest => (tag, content) :: (content.elements ++ rest.elements)

@[simp] theorem elements_text (s : Text) : (text s).elements = [] := rfl

@[simp] theorem elements_element (before : Text) (tag : OpenTag) (content rest : Document) :
    (element before tag content rest).elements
      = (tag, content) :: (content.elements ++ rest.elements) := rfl

@[simp] theorem elements_prepend (s : Text) (d : Document) : (d.prepend s).elements = d.elements := by
  cases d <;> rfl

@[simp] theorem elements_append (d e : Document) : (d ++ e).elements = d.elements ++ e.elements := by
  induction d with
  | text s => simp
  | element before tag content rest _ ih => simp [ih]

/-- Whether no element of a document has a name. -/
def Lacks (name : Text) (d : Document) : Prop := ∀ x ∈ d.elements, x.1.name ≠ name

instance (name : Text) : DecidablePred (Lacks name) := fun d =>
  inferInstanceAs (Decidable (∀ x ∈ d.elements, _))

end Document

/-! ## Well-formed tags -/

/-- Running text of a document: it opens no tag and no character reference. -/
def IsRunning (s : Text) : Prop := ∀ c ∈ s, Step.isPlainChar c = true

/-- Blanks inside a tag. -/
def IsGap (s : Text) : Prop := ∀ c ∈ s, isIndent c = true

/-- What holds of all characters of a text is decided on the text, not on all characters. -/
instance (priority := high) decidableForallMem (p : CodePoint → Prop) [DecidablePred p] (s : Text) :
    Decidable (∀ c ∈ s, p c) := List.decidableBAll p s

instance : DecidablePred IsRunning := fun s => inferInstanceAs (Decidable (∀ c ∈ s, _))

instance : DecidablePred IsGap := fun s => inferInstanceAs (Decidable (∀ c ∈ s, _))

/-- Whether a character may stand in the name of an element of a document, the first place
excepted. -/
def isElementNameChar (c : CodePoint) : Bool :=
  c.isLower || c.isDigit || [char '-', '_', '.', ':'].elem c

/-- Whether a text names an element: a small letter, and then small letters, digits and a few
marks. -/
def isElementName : Text → Bool
  | [] => false
  | c :: s => c.isLower && s.all isElementNameChar

/-- Whether a character may stand in the name of an attribute of a document. -/
def isQuotedAttrChar (c : CodePoint) : Bool :=
  StartTag.isAttrNameChar c && c != '<' && c != '"' && c != '\''

/-- Whether a character may stand in the value of an attribute of a document. -/
def isValueChar (c : CodePoint) : Bool := c != '<' && c != '>' && c != '&' && c != '"'

/-- An attribute between double quotes: with a gap before it, a name, and a value that holds
neither markup nor double quotes. -/
structure QuotedAttr.WellFormed (a : QuotedAttr) : Prop where
  gap_ne_nil : a.gap ≠ []
  gap : IsGap a.gap
  name_ne_nil : a.name ≠ []
  name : ∀ c ∈ a.name, isQuotedAttrChar c = true
  value : ∀ c ∈ a.value, isValueChar c = true

instance : DecidablePred QuotedAttr.WellFormed := fun a =>
  decidable_of_iff
    (a.gap ≠ [] ∧ IsGap a.gap ∧ a.name ≠ [] ∧ (∀ c ∈ a.name, isQuotedAttrChar c = true) ∧
      ∀ c ∈ a.value, isValueChar c = true)
    ⟨fun ⟨h₁, h₂, h₃, h₄, h₅⟩ => ⟨h₁, h₂, h₃, h₄, h₅⟩,
      fun ⟨h₁, h₂, h₃, h₄, h₅⟩ => ⟨h₁, h₂, h₃, h₄, h₅⟩⟩

/-- A start tag of an element that is not void. -/
structure OpenTag.WellFormed (t : OpenTag) : Prop where
  name : isElementName t.name = true
  not_void : t.name ∉ voidNames
  attrs : ∀ a ∈ t.attrs, a.WellFormed
  tail : IsGap t.tail

instance : DecidablePred OpenTag.WellFormed := fun t =>
  decidable_of_iff
    (isElementName t.name = true ∧ t.name ∉ voidNames ∧ (∀ a ∈ t.attrs, a.WellFormed) ∧
      IsGap t.tail)
    ⟨fun ⟨h₁, h₂, h₃, h₄⟩ => ⟨h₁, h₂, h₃, h₄⟩, fun ⟨h₁, h₂, h₃, h₄⟩ => ⟨h₁, h₂, h₃, h₄⟩⟩

/-- What may stand behind the attributes of a start tag: blanks, and then a slash if the tag
closes itself. -/
def IsTail (s : Text) : Prop := IsGap s ∨ s.getLast? = some (char '/') ∧ IsGap s.dropLast

instance : DecidablePred IsTail := fun s =>
  inferInstanceAs (Decidable (IsGap s ∨ s.getLast? = some (char '/') ∧ IsGap s.dropLast))

/-- A start tag as it may be written for an element of any name, with or without a slash at the
end. -/
structure OpenTag.IsWritten (t : OpenTag) : Prop where
  name : isElementName t.name = true
  attrs : ∀ a ∈ t.attrs, a.WellFormed
  tail : IsTail t.tail

instance : DecidablePred OpenTag.IsWritten := fun t =>
  decidable_of_iff (isElementName t.name = true ∧ (∀ a ∈ t.attrs, a.WellFormed) ∧ IsTail t.tail)
    ⟨fun ⟨h₁, h₂, h₃⟩ => ⟨h₁, h₂, h₃⟩, fun ⟨h₁, h₂, h₃⟩ => ⟨h₁, h₂, h₃⟩⟩

/-- Whether a start tag ends in a slash. -/
def OpenTag.closesItself (t : OpenTag) : Bool := t.tail.getLast? == some (char '/')

/-- An attribute between double quotes whose value holds none. Anything else may stand in the
value, markup and character references included, but no number with too many digits. -/
structure QuotedAttr.IsDelimited (a : QuotedAttr) : Prop where
  gap_ne_nil : a.gap ≠ []
  gap : IsGap a.gap
  name_ne_nil : a.name ≠ []
  name : ∀ c ∈ a.name, isQuotedAttrChar c = true
  value : char '"' ∉ a.value
  number : CharRef.overlongIn? a.value = none

/-- A start tag as it may be written for an element of any name, whatever the values of its
attributes hold. -/
structure OpenTag.IsDelimited (t : OpenTag) : Prop where
  name : isElementName t.name = true
  attrs : ∀ a ∈ t.attrs, a.IsDelimited
  tail : IsTail t.tail

theorem overlongIn?_cons_of_ne {c : CodePoint} (s : Text) (h : c ≠ '&') :
    CharRef.overlongIn? (c :: s) = CharRef.overlongIn? s := by
  rw [CharRef.overlongIn?, if_neg (by simp [startsWith, after?, h.symm])]

/-- Without a reference there is no number. -/
theorem overlongIn?_of_not_mem {s : Text} (h : char '&' ∉ s) : CharRef.overlongIn? s = none := by
  induction s with
  | nil => rfl
  | cons c s ih =>
      simp only [List.mem_cons, not_or] at h
      rw [overlongIn?_cons_of_ne _ fun e => h.1 e.symm, ih h.2]

theorem QuotedAttr.WellFormed.isDelimited {a : QuotedAttr} (h : a.WellFormed) : a.IsDelimited where
  gap_ne_nil := h.gap_ne_nil
  gap := h.gap
  name_ne_nil := h.name_ne_nil
  name := h.name
  value := fun hm => absurd (h.value '"' hm) (by decide)
  number := overlongIn?_of_not_mem fun hm => absurd (h.value '&' hm) (by decide)

theorem OpenTag.IsWritten.isDelimited {t : OpenTag} (h : t.IsWritten) : t.IsDelimited :=
  ⟨h.name, fun a ha => (h.attrs a ha).isDelimited, h.tail⟩

namespace OpenTag.WellFormed

variable {t : OpenTag} (h : t.WellFormed)

include h

theorem isWritten : t.IsWritten := ⟨h.name, h.attrs, Or.inl h.tail⟩

theorem closesItself_eq_false : t.closesItself = false := by
  rw [OpenTag.closesItself, beq_eq_false_iff_ne]
  intro e
  exact absurd (h.tail '/' (List.mem_of_getLast? e)) (by decide)

end OpenTag.WellFormed

/-! ## Well-formed documents -/

/-- The name of the elements that hold a style sheet. -/
def sheetName : Text := "style".text

namespace Document

/-- A document whose texts and tags are well formed. The content of a script or a style sheet is
a text that opens no tag. -/
inductive WellFormed : Document → Prop where
  | text {s : Text} : IsRunning s → WellFormed (text s)
  | element {before : Text} {tag : OpenTag} {content rest : Document} :
      IsRunning before → tag.WellFormed → tag.name ∉ RawText.names →
      WellFormed content → WellFormed rest → WellFormed (element before tag content rest)
  | raw {before : Text} {tag : OpenTag} {css : Text} {rest : Document} :
      IsRunning before → tag.WellFormed → tag.name ∈ RawText.names →
      char '<' ∉ css → WellFormed rest →
      WellFormed (Document.element before tag (Document.text css) rest)

/-- Whether a document is a text that opens no tag. -/
def isRawText : Document → Bool
  | text css => !css.elem (char '<')
  | element _ _ _ _ => false

/-- Whether a document is well formed. -/
def isWellFormed : Document → Bool
  | text s => decide (IsRunning s)
  | element before tag content rest =>
      decide (IsRunning before) && decide tag.WellFormed &&
        (if tag.name ∈ RawText.names then content.isRawText else content.isWellFormed) &&
        rest.isWellFormed

theorem isWellFormed_iff (d : Document) : d.isWellFormed = true ↔ d.WellFormed := by
  induction d with
  | text s =>
      constructor
      · intro h
        exact .text (by simpa [isWellFormed] using h)
      · rintro ⟨hs⟩
        simpa [isWellFormed] using hs
  | element before tag content rest ihc ihr =>
      simp only [isWellFormed, Bool.and_eq_true, decide_eq_true_eq]
      constructor
      · rintro ⟨⟨⟨hb, ht⟩, hc⟩, hr⟩
        by_cases hn : tag.name ∈ RawText.names
        · rw [if_pos hn] at hc
          cases content with
          | text css => exact .raw hb ht hn (by simpa [isRawText] using hc) (ihr.1 hr)
          | element _ _ _ _ => simp [isRawText] at hc
        · rw [if_neg hn] at hc
          exact .element hb ht hn (ihc.1 hc) (ihr.1 hr)
      · intro h
        cases h with
        | element hb ht hn hc hr =>
            rw [if_neg hn]
            exact ⟨⟨⟨hb, ht⟩, ihc.2 hc⟩, ihr.2 hr⟩
        | raw hb ht hn hc hr =>
            rw [if_pos hn]
            exact ⟨⟨⟨hb, ht⟩, by simpa [isRawText] using hc⟩, ihr.2 hr⟩

instance : DecidablePred WellFormed := fun d => decidable_of_iff _ d.isWellFormed_iff

/-- Whether no element of a document has raw text for its content. -/
def Rawless (d : Document) : Prop := ∀ x ∈ d.elements, x.1.name ∉ RawText.names

instance : DecidablePred Rawless := fun d =>
  inferInstanceAs (Decidable (∀ x ∈ d.elements, _))

/-- A well-formed document without scripts and style sheets. -/
structure Plain (d : Document) : Prop where
  wellFormed : d.WellFormed
  rawless : d.Rawless

instance : DecidablePred Plain := fun d =>
  decidable_of_iff (d.WellFormed ∧ d.Rawless) ⟨fun ⟨h₁, h₂⟩ => ⟨h₁, h₂⟩, fun ⟨h₁, h₂⟩ => ⟨h₁, h₂⟩⟩

theorem rawless_iff {d : Document} : d.Rawless ↔ ∀ name ∈ RawText.names, d.Lacks name :=
  ⟨fun h _ hname x hx e => h x hx (e ▸ hname), fun h x hx hname => h _ hname x hx rfl⟩

theorem Rawless.lacks_sheetName {d : Document} (h : d.Rawless) : d.Lacks sheetName :=
  rawless_iff.1 h sheetName (by decide)

/-! ## Content of a document without raw text -/

theorem WellFormed.content_of_ne {before : Text} {tag : OpenTag} {content rest : Document}
    (h : (Document.element before tag content rest).WellFormed) (hn : tag.name ∉ RawText.names) :
    content.WellFormed := by
  cases h with
  | element _ _ _ hc _ => exact hc
  | raw _ _ hn' _ _ => exact absurd hn' hn

theorem WellFormed.content_of_not_raw {d : Document} (h : d.WellFormed) :
    ∀ x ∈ d.elements, x.1.name ∉ RawText.names → x.2.WellFormed := by
  induction h with
  | text _ => simp
  | element _ _ _ hc _ ihc ihr =>
      simp only [elements_element, List.mem_cons, List.mem_append]
      rintro x (rfl | hx | hx) hn
      exacts [hc, ihc x hx hn, ihr x hx hn]
  | raw _ _ hraw _ _ ihr =>
      simp only [elements_element, elements_text, List.nil_append, List.mem_cons]
      rintro x (rfl | hx) hn
      exacts [absurd hraw hn, ihr x hx hn]

theorem WellFormed.content_of_mem {d : Document} (h : d.WellFormed) (hd : d.Rawless) :
    ∀ x ∈ d.elements, x.2.WellFormed :=
  fun x hx => h.content_of_not_raw x hx (hd x hx)

theorem mem_elements_of_mem_content {d : Document} {x y : OpenTag × Document}
    (hx : x ∈ d.elements) (hy : y ∈ x.2.elements) : y ∈ d.elements := by
  induction d with
  | text s => simp at hx
  | element before tag content rest ihc ihr =>
      simp only [elements_element, List.mem_cons, List.mem_append] at hx ⊢
      rcases hx with rfl | hx | hx
      exacts [Or.inr (Or.inl hy), Or.inr (Or.inl (ihc hx)), Or.inr (Or.inr (ihr hx))]

end Document
end Stencil.Html
