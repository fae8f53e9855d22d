import Stencil.Fragment
import Stencil.Proofs.Document.Retag
import Stencil.Proofs.Document.Unique
import Stencil.Vocabulary

set_option autoImplicit false

/-! # The meaning of a template

What a page stands for is said on documents, without texts and places in them. An import
supplies documents for the slots of its fragment: each template at the top of its content goes
to the slot of its name, and the rest goes to the default slot. Filling puts what is supplied
in the place of the slots, and expanding puts filled fragments in the place of the imports,
again and again.
-/

namespace Stencil.Html

open Text Vocabulary

/-! ## Trimming a document -/

theorem dropWhile_append_cons_of_neg {p : CodePoint → Bool} {c : CodePoint} (s r : Text)
    (h : p c = false) :
    (s ++ c :: r).dropWhile p = s.dropWhile p ++ c :: r := by
  induction s with
  | nil => simp [h]
  | cons d s ih =>
      by_cases hd : p d = true
      · simpa [hd] using ih
      · simp [hd]

theorem trimLeft_append_cons {c : CodePoint} (s r : Text) (h : isBlank c = false) :
    trimLeft (s ++ c :: r) = trimLeft s ++ c :: r := dropWhile_append_cons_of_neg s r h

theorem trimRight_append_cons {c : CodePoint} (s r : Text) (h : isBlank c = false) :
    trimRight (s ++ c :: r) = s ++ c :: trimRight r := by
  rw [trimRight, dropEndWhile, List.reverse_append, List.reverse_cons, List.append_assoc,
    List.singleton_append, dropWhile_append_cons_of_neg _ _ h]
  simp [trimRight, dropEndWhile]

theorem isRunning_trimLeft {s : Text} (h : IsRunning s) : IsRunning (trimLeft s) :=
  fun c hc => h c ((List.dropWhile_sublist _).mem hc)

theorem isRunning_trimRight {s : Text} (h : IsRunning s) : IsRunning (trimRight s) := by
  intro c hc
  refine h c (List.mem_reverse.1 ((List.dropWhile_sublist isBlank).mem ?_))
  simpa [trimRight, dropEndWhile] using hc

namespace Document

/-- A document without the blanks at its front. -/
def trimLeft : Document → Document
  | text s => text (Text.trimLeft s)
  | element before tag content rest => element (Text.trimLeft before) tag content rest

/-- A document without the blanks at its end. -/
def trimRight : Document → Document
  | text s => text (Text.trimRight s)
  | element before tag content rest => element before tag content rest.trimRight

/-- A document without the blanks at both ends. -/
def trim (d : Document) : Document := d.trimLeft.trimRight

theorem source_trimLeft (d : Document) : d.trimLeft.source = Text.trimLeft d.source := by
  cases d with
  | text s => rfl
  | element before tag content rest =>
      have hsource : (element before tag content rest).source
          = before ++ char '<' :: (tag.inside ++ char '>' ::
              (content.source ++ endTagText tag.name ++ rest.source)) := by
        simp [source, OpenTag.source]
      rw [hsource, trimLeft_append_cons _ _ (by decide)]
      simp [trimLeft, source, OpenTag.source]

theorem source_trimRight (d : Document) : d.trimRight.source = Text.trimRight d.source := by
  induction d with
  | text s => rfl
  | element before tag content rest _ ih =>
      have hsource : ∀ rest : Document, (element before tag content rest).source
          = before ++ tag.source ++ content.source ++ [char '<', char '/'] ++ tag.name
              ++ char '>' ::
              rest.source := by
        intro rest
        simp [source, endTagText]
      rw [trimRight, hsource, ih, hsource, trimRight_append_cons _ _ (by decide)]

theorem source_trim (d : Document) : d.trim.source = Text.trim d.source := by
  rw [trim, source_trimRight, source_trimLeft]
  rfl

@[simp] theorem elements_trimLeft (d : Document) : d.trimLeft.elements = d.elements := by
  cases d <;> rfl

@[simp] theorem elements_trimRight (d : Document) : d.trimRight.elements = d.elements := by
  induction d with
  | text s => rfl
  | element before tag content rest _ ih => simp [trimRight, ih]

@[simp] theorem elements_trim (d : Document) : d.trim.elements = d.elements := by simp [trim]

theorem WellFormed.trimLeft {d : Document} (h : d.WellFormed) : d.trimLeft.WellFormed := by
  cases h with
  | text hs => exact .text (isRunning_trimLeft hs)
  | element hb ht hn hc hr => exact .element (isRunning_trimLeft hb) ht hn hc hr
  | raw hb ht hn hcss hr => exact .raw (isRunning_trimLeft hb) ht hn hcss hr

theorem WellFormed.trimRight {d : Document} (h : d.WellFormed) : d.trimRight.WellFormed := by
  induction h with
  | text hs => exact .text (isRunning_trimRight hs)
  | element hb ht hn hc _ _ ihr => exact .element hb ht hn hc ihr
  | raw hb ht hn hcss _ ihr => exact .raw hb ht hn hcss ihr

theorem WellFormed.trim {d : Document} (h : d.WellFormed) : d.trim.WellFormed :=
  h.trimLeft.trimRight

end Document

/-! ## What an import supplies -/

/-- The value of an attribute of a start tag. -/
def OpenTag.attr? (t : OpenTag) (name : Text) : Option Text := t.table.get? name

/-- The slot that a slot element stands for. -/
def OpenTag.slotName (t : OpenTag) : Text := (t.table.filled? "name".text).getD defaultSlot

namespace Document

/-- The templates at the top of a document, each with the name of its slot. -/
def templates : Document → List (Text × Document)
  | text _ => []
  | element _ tag content rest =>
      if tag.name = templateTag then
        ((tag.attr? "name".text).getD [], content) :: rest.templates
      else rest.templates

/-- A document without the templates at its top. -/
def withoutTemplates : Document → Document
  | text s => text s
  | element before tag content rest =>
      if tag.name = templateTag then text before ++ rest.withoutTemplates
      else element before tag content rest.withoutTemplates

/-- What the content of an import gives to a slot: the last template of that name, or for the
default slot all that is not in a template. -/
def given (content : Document) (slot : Text) : Option Document :=
  if slot = defaultSlot then some content.withoutTemplates
  else content.templates.reverse.lookup slot

/-- What the content of an import supplies for a slot: what it gives, without the blanks around
it, unless that is empty. -/
def supply (content : Document) (slot : Text) : Option Document :=
  ((content.given slot).map trim).filter (!·.source.isEmpty)

/-- A document with its slots filled. A slot for which there is nothing keeps its content. -/
def fill (supply : Text → Option Document) : Document → Document
  | text s => text s
  | element before tag content rest =>
      if tag.name = slotTag then
        text before ++ (supply tag.slotName).getD (content.fill supply) ++ rest.fill supply
      else element before tag (content.fill supply) (rest.fill supply)

end Document

/-! ## Expanding imports -/

/-- The text of the fragment that an import stands for; a missing one is empty. -/
def fragmentText (store : Store) (t : OpenTag) : Text :=
  (store.html? ((t.attr? "src".text).getD [])).getD []

/-- The expansion of a document whose slots are filled: every import gives way to its fragment,
filled with what the import supplies and expanded in its turn. -/
inductive Expands (store : Store) : Document → Document → Prop where
  | text (s : Text) : Expands store (.text s) (.text s)
  | element {before : Text} {tag : OpenTag} {content content' rest rest' : Document} :
      tag.name ≠ importTag → Expands store content content' → Expands store rest rest' →
      Expands store (.element before tag content rest) (.element before tag content' rest')
  | fragment {before : Text} {tag : OpenTag} {content rest body out rest' : Document} :
      tag.name = importTag → body.WellFormed → body.source = fragmentText store tag →
      Expands store (body.fill content.supply) out → Expands store rest rest' →
      Expands store (.element before tag content rest) (.text before ++ out ++ rest')

/-- A document has one expansion. -/
theorem Expands.unique {store : Store} {d out out' : Document} (h : Expands store d out)
    (h' : Expands store d out') : out = out' := by
  induction h generalizing out' with
  | text s => cases h'; rfl
  | element hn _ _ ihc ihr =>
      cases h' with
      | element _ hc hr => rw [ihc hc, ihr hr]
      | fragment hn' => exact absurd hn' hn
  | fragment hn hwf hbody _ _ ihb ihr =>
      cases h' with
      | element hn' => exact absurd hn hn'
      | fragment _ hwf' hbody' hout hr =>
          obtain ⟨rfl, -⟩ := hwf.source_inj hwf' endsContent_nil endsContent_nil
            (by rw [hbody, hbody'])
          rw [ihb hout, ihr hr]

/-- A chain of imports of a length that begins in a document whose slots are filled: every
further one stands in the filled fragment of the one before. -/
inductive ImportChain (store : Store) : Document → Nat → Prop where
  | stop (d : Document) : ImportChain store d 0
  | step {d body : Document} {tag : OpenTag} {content : Document} {n : Nat} :
      (tag, content) ∈ d.elements → tag.name = importTag → body.WellFormed →
      body.source = fragmentText store tag → ImportChain store (body.fill content.supply) n →
      ImportChain store d (n + 1)

/-- A chain may stop earlier. -/
theorem ImportChain.of_le {store : Store} {d : Document} {m n : Nat} (h : ImportChain store d n)
    (hmn : m ≤ n) : ImportChain store d m := by
  induction h generalizing m with
  | stop d =>
      obtain rfl : m = 0 := by omega
      exact .stop d
  | step hmem hn hwf hbody _ ih =>
      cases m with
      | zero => exact .stop _
      | succ m => exact .step hmem hn hwf hbody (ih (by omega))

end Stencil.Html
