import Stencil.Proofs.Flow.Hoist

set_option autoImplicit false

/-! # Gathering the style sheets of plain markup

In markup without comments nothing is hidden that could be taken for a style sheet or for the end of
the head. So the style sheets are moved once: what comes out is plain markup again, with one style
sheet in its place, and hoisting takes that sheet out only to put it back.
-/

namespace Stencil

open Text Html

namespace Html

/-! ## Plain markup -/

/-- A start tag that neither closes itself nor is that of a wrapper. -/
def OpenTag.IsOwn (t : OpenTag) : Prop :=
  t.IsWritten ∧ t.closesItself = false ∧ t.table.has Vocabulary.wrapperAttr = false

instance : DecidablePred OpenTag.IsOwn := fun t =>
  inferInstanceAs (Decidable (t.IsWritten ∧ t.closesItself = false ∧
    t.table.has Vocabulary.wrapperAttr = false))

namespace Chunk

/-- A tag of an element, or a whole script or style sheet with text that opens no tag. -/
def IsPlain : Chunk → Prop
  | opening t => t.IsOwn ∧ t.name ∉ RawText.names
  | closing name => isElementName name = true ∧ name ≠ sheetName
  | raw t s => t.IsOwn ∧ t.name ∈ RawText.names ∧ char '<' ∉ s
  | _ => False

instance : DecidablePred IsPlain
  | opening t => inferInstanceAs (Decidable (t.IsOwn ∧ t.name ∉ RawText.names))
  | closing name => inferInstanceAs (Decidable (isElementName name = true ∧ name ≠ sheetName))
  | comment _ => inferInstanceAs (Decidable False)
  | declaration _ => inferInstanceAs (Decidable False)
  | raw t s => inferInstanceAs (Decidable (t.IsOwn ∧ t.name ∈ RawText.names ∧ char '<' ∉ s))

namespace IsPlain

variable {c : Chunk} (h : c.IsPlain)

include h

theorem isReadable : c.IsReadable := by
  cases c with
  | opening t => exact ⟨h.1.1, h.2⟩
  | closing name => exact h.1
  | comment s => exact h.elim
  | declaration s => exact h.elim
  | raw t s =>
      obtain ⟨⟨ht, hopen, -⟩, hraw, hs⟩ := h
      have hend := cutAt?_endTag_eq_none (contains_eq_false_of_not_mem (by simp) hs) t.name
      exact ⟨ht, hopen, hraw, hend, fun _ => hs⟩

theorem unwrapped {t : OpenTag} (ht : c.tag? = some t) :
    t.table.has Vocabulary.wrapperAttr = false := by
  cases c with
  | opening u =>
      obtain rfl := Option.some.inj ht
      exact h.1.2.2
  | raw u s =>
      obtain rfl := Option.some.inj ht
      exact h.1.2.2
  | _ => cases ht

theorem ne_closing : c ≠ .closing sheetName := by
  rintro rfl
  exact h.2 rfl

/-- No tag is hidden in a plain chunk but the end tag of a script or style sheet. -/
theorem everyTag_hidden :
    EveryTag (fun x => ∃ name ∈ RawText.names, x = char '/' :: name) c.hidden := by
  cases c with
  | opening t => exact everyTag_of_not_mem List.not_mem_nil
  | closing name => exact everyTag_of_not_mem List.not_mem_nil
  | comment s => exact h.elim
  | declaration s => exact h.elim
  | raw t s =>
      obtain ⟨ht, hraw, hs⟩ := h
      exact (everyTag_of_not_mem hs).append (everyTag_endTagText ht.1.name ⟨t.name, hraw, rfl⟩)

theorem leftovers_hidden : leftovers sheetName c.hidden = [] := by
  rw [leftovers_eq_nil_iff]
  rintro b ⟨a, hab⟩ ⟨u, r, rfl, -⟩
  obtain ⟨x, r', e, -, name, -, rfl⟩ := h.everyTag_hidden a _ hab.symm
  -- an end tag does not begin like a start tag
  have hletters : char 's' = char '/' := (List.cons.inj e).1
  exact absurd hletters (by decide)

theorem contains_hidden : contains c.hidden (endTagText headName) = false := by
  have hhead : ¬ ∃ name ∈ RawText.names, char '/' :: headName = char '/' :: name := by decide
  exact h.everyTag_hidden.contains_eq_false (by decide) hhead []

theorem expandFrom_source (r : Text) : expandFrom 0 (c.source ++ r) = c.source ++ expandFrom 0 r := by
  cases c with
  | opening t => exact Html.expandFrom_source h.1.1 h.1.2.1 r
  | closing name => exact expandFrom_endTagText h.1 r
  | comment s => exact h.elim
  | declaration s => exact h.elim
  | raw t s =>
      obtain ⟨⟨ht, hopen, -⟩, -, hs⟩ := h
      simp only [source, List.append_assoc]
      rw [Html.expandFrom_source ht hopen, expandFrom_of_not_mem hs, expandFrom_endTagText ht.name]

end IsPlain

end Chunk

namespace Flow

/-- Whether a flow is running text and plain chunks. -/
def IsPlain : Flow → Prop
  | text s => IsRunning s
  | chunk before c rest => IsRunning before ∧ c.IsPlain ∧ rest.IsPlain

/-- Whether a flow is plain, as a computation. -/
def decideIsPlain : (f : Flow) → Decidable f.IsPlain
  | text s => inferInstanceAs (Decidable (IsRunning s))
  | chunk before c rest =>
      have := decideIsPlain rest
      inferInstanceAs (Decidable (IsRunning before ∧ c.IsPlain ∧ rest.IsPlain))

instance : DecidablePred IsPlain := decideIsPlain

theorem isProse_of_isRunning {s : Text} (h : IsRunning s) : IsProse s := by
  have hamp : char '&' ∉ s := fun hm => absurd (h _ hm) (by decide)
  exact ⟨not_mem_of_isRunning h, contains_eq_false_of_not_mem (by simp) hamp⟩

namespace IsPlain

variable {f : Flow} (h : f.IsPlain)

include h

theorem isReadable : f.IsReadable := by
  induction f with
  | text s => exact isProse_of_isRunning h
  | chunk before c rest ih => exact ⟨isProse_of_isRunning h.1, h.2.1.isReadable, ih h.2.2⟩

theorem mem_chunks {c : Chunk} (hc : c ∈ f.chunks) : c.IsPlain := by
  induction f with
  | text s => cases hc
  | chunk before d rest ih =>
      rcases List.mem_cons.1 hc with rfl | hc
      exacts [h.2.1, ih h.2.2 hc]

theorem expandFrom_source (r : Text) : expandFrom 0 (f.source ++ r) = f.source ++ expandFrom 0 r := by
  induction f generalizing r with
  | text s => exact expandFrom_of_not_mem (not_mem_of_isRunning h) r
  | chunk before c rest ih =>
      obtain ⟨hbefore, hc, hrest⟩ := h
      simp only [source, List.append_assoc]
      rw [expandFrom_of_not_mem (not_mem_of_isRunning hbefore), hc.expandFrom_source, ih hrest]

/-- Nothing but the style sheets of plain markup is moved. -/
theorem isHoistable : f.IsHoistable where
  unwrapped := by
    intro t ht
    obtain ⟨c, hc, htag⟩ := mem_tags.1 ht
    exact (h.mem_chunks hc).unwrapped htag
  expanded := by
    have key := h.expandFrom_source []
    rwa [List.append_nil, expandFrom, List.append_nil] at key
  sheets := ⟨fun hm => (h.mem_chunks hm).ne_closing rfl, fun c hc => (h.mem_chunks hc).leftovers_hidden⟩
  head := fun _ c hc => (h.mem_chunks ((List.takeWhile_prefix _).subset hc)).contains_hidden

theorem prepend {s : Text} (hs : IsRunning s) : (f.prepend s).IsPlain := by
  have happend : ∀ {t : Text}, IsRunning t → IsRunning (s ++ t) := by
    intro t ht c hc
    rcases List.mem_append.1 hc with hc | hc
    exacts [hs c hc, ht c hc]
  cases f with
  | text t => exact happend h
  | chunk before c rest => exact ⟨happend h.1, h.2⟩

theorem withoutSheets : f.withoutSheets.IsPlain := by
  induction f with
  | text s => exact h
  | chunk before c rest ih =>
      obtain ⟨hbefore, hc, hrest⟩ := h
      rw [Flow.withoutSheets]
      split
      · exact (ih hrest).prepend hbefore
      · exact ⟨hbefore, hc, ih hrest⟩

theorem withSheet {css : Text} (hcss : char '<' ∉ css) : (f.withSheet css).IsPlain := by
  have hempty : IsRunning [] := by simp [IsRunning]
  have hsheet : (Chunk.ofSheet css).IsPlain := ⟨by decide, by decide, hcss⟩
  induction f with
  | text s => exact ⟨h, hsheet, hempty⟩
  | chunk before c rest ih =>
      obtain ⟨hbefore, hc, hrest⟩ := h
      rw [Flow.withSheet]
      split
      · exact ⟨hbefore, hsheet, hempty, hc, hrest⟩
      · exact ⟨hbefore, hc, ih hrest⟩

theorem lt_not_mem_sheets {css : Text} (hcss : css ∈ f.sheets) : char '<' ∉ css := by
  obtain ⟨c, hc, hsheet⟩ := List.mem_filterMap.1 hcss
  obtain ⟨t, rfl, -⟩ := Chunk.exists_of_sheet? hsheet
  exact (h.mem_chunks hc).2.2

/-- With its style sheets in one, plain markup is plain. -/
theorem hoisted : f.hoisted.IsPlain := by
  rw [Flow.hoisted]
  split
  · exact h
  · refine h.withoutSheets.withSheet fun hm => ?_
    rcases mem_of_mem_join hm with hm | ⟨css, hcss, hm⟩
    · revert hm
      decide
    · exact h.lt_not_mem_sheets (List.mem_reverse.1 hcss) hm

end IsPlain

/-! ## Hoisting again -/

/-- Taking a style sheet out that has been put in leaves what was there before. -/
theorem withoutSheets_withSheet (css : Text) (f : Flow) :
    (f.withSheet css).withoutSheets = f.withoutSheets := by
  induction f with
  | text s => simp [withSheet, withoutSheets, Chunk.ofSheet, Chunk.sheet?, OpenTag.bare, prepend]
  | chunk before c rest ih =>
      rw [withSheet]
      split
      · rename_i hhead
        subst hhead
        simp [withoutSheets, Chunk.ofSheet, Chunk.sheet?, OpenTag.bare, prepend]
      · rw [withoutSheets, withoutSheets, ih]

theorem withoutSheets_withoutSheets (f : Flow) : f.withoutSheets.withoutSheets = f.withoutSheets :=
  withoutSheets_eq_self (sheets_withoutSheets f)

theorem hoisted_hoisted (f : Flow) : f.hoisted.hoisted = f.hoisted := by
  by_cases hnone : f.sheets = []
  · rw [show f.hoisted = f from if_pos hnone]
    exact if_pos hnone
  · -- the one sheet that was put in is taken out, and put in again where it stood
    have hsheets : f.hoisted.sheets = [join ['\n'] f.sheets.reverse] := by
      rw [sheets_hoisted, if_neg hnone]
    have hwithout : f.hoisted.withoutSheets = f.withoutSheets := by
      rw [hoisted, if_neg hnone, withoutSheets_withSheet, withoutSheets_withoutSheets]
    rw [hoisted, hsheets, hwithout, if_neg (by simp), hoisted, if_neg hnone]
    rfl

end Flow

end Html

/-! ## The place of the style sheet -/

namespace Hoist

/-- What a page becomes when a block is put in front of the first place of a mark, or at the end of
the page if the mark stands nowhere. -/
def PutsBefore (mark block page result : Text) : Prop :=
  (∃ front rest, page = front ++ mark ++ rest ∧
      (∀ a b, page = a ++ mark ++ b → front.length ≤ a.length) ∧
      result = front ++ block ++ mark ++ rest) ∨
    (∀ a b, page ≠ a ++ mark ++ b) ∧ result = page ++ block

theorem putsBefore_insert (sheets : List Text) (page : Text) :
    PutsBefore "</head>".text
      ("<style>".text ++ join ['\n'] sheets ++ "</style>".text) page (insert sheets page) := by
  have hhead : endTagText "head".text = "</head>".text := by decide
  have hopen : startTagText "style".text [] = "<style>".text := by decide
  have hclose : endTagText "style".text = "</style>".text := by decide
  rw [insert, hhead, hopen, hclose]
  split
  · rename_i hcontains
    obtain ⟨⟨front, rest⟩, hcut⟩ := Option.isSome_iff_exists.1 hcontains
    refine Or.inl ⟨front, rest, eq_of_cut? hcut, fun a b => length_le_of_cut? hcut, ?_⟩
    rw [replaceFirst_of_cut? _ hcut]
    simp
  · rename_i hcontains
    exact Or.inr ⟨(contains_eq_false_iff _ _).1 (by simpa using hcontains), rfl⟩

open Flow

/-- The style sheets of plain markup are gathered in one, the last one first, in front of the first
end of a head or else at the end. Gathering them again changes nothing. -/
theorem styles_gathers {f : Flow} (hf : f.IsPlain) :
    ∃ page, styles f.source = .ok page ∧
      (f.sheets = [] → page = f.source) ∧
      (f.sheets ≠ [] → PutsBefore "</head>".text
        ("<style>".text ++ join ['\n'] f.sheets.reverse ++ "</style>".text)
        f.withoutSheets.source page) ∧
      styles page = .ok page := by
  have hstyles : ∀ {g : Flow}, g.IsPlain → styles g.source = .ok g.hoisted.source := fun hg =>
    hg.isReadable.styles_eq_hoisted hg.isHoistable
  refine ⟨f.hoisted.source, hstyles hf, fun hnone => ?_, fun hsome => ?_, ?_⟩
  · rw [hoisted, if_pos hnone]
  · rw [hoisted, if_neg hsome, ← hf.withoutSheets.isReadable.isCut.insert_source
      (hf.isHoistable.head hsome).withoutSheets]
    exact putsBefore_insert f.sheets.reverse f.withoutSheets.source
  · rw [hstyles hf.hoisted, hoisted_hoisted]

/-- A page with a style sheet in its head, the same one inside a paragraph, and a third one behind
it, in which a script stands in front of the end of the head. -/
def strewnPage : Flow :=
  .chunk [] (.opening (.bare headName)) <|
  .chunk [] (.ofSheet "a".text) <|
  .chunk [] (.raw (.bare "script".text) "1 > 0".text) <|
  .chunk [] (.closing headName) <|
  .chunk [] (.opening ⟨"p".text, [⟨[' '], "id".text, "x".text⟩], []⟩) <|
  .chunk "t".text (.ofSheet "a".text) <|
  .chunk [] (.closing "p".text) <|
  .chunk [] (.raw ⟨sheetName, [⟨[' '], "media".text, "print".text⟩], []⟩ "b".text) <|
  .text []

theorem styles_gathers_strewnPage :
    strewnPage.IsPlain ∧
      strewnPage.source = ("<head><style>a</style><script>1 > 0</script></head>" ++
        "<p id=\"x\">t<style>a</style></p><style media=\"print\">b</style>").text ∧
      ∃ page, styles strewnPage.source = .ok page ∧
        PutsBefore "</head>".text "<style>b\na\na</style>".text
          "<head><script>1 > 0</script></head><p id=\"x\">t</p>".text page ∧
        styles page = .ok page := by
  have hplain : strewnPage.IsPlain := by decide +kernel
  have hsheets : strewnPage.sheets ≠ [] := by decide
  obtain ⟨page, hpage, -, hputs, hagain⟩ := styles_gathers hplain
  exact ⟨hplain, by decide +kernel, page, hpage, hputs hsheets, hagain⟩

/-- A page with a style sheet, and the text of another one in a script. -/
def scriptedPage : Flow :=
  .chunk [] (.raw (.bare "script".text) "<style>a</style>".text) <|
  .chunk [] (.ofSheet "b".text) <|
  .text []

/-- The text in the script is gathered with the style sheet. -/
theorem styles_scriptedPage :
    scriptedPage.source = "<script><style>a</style></script><style>b</style>".text ∧
      scriptedPage.sheets = ["b".text] ∧
      styles scriptedPage.source = .ok "<script></script><style>a\nb</style>".text ∧
      ¬ PutsBefore "</head>".text "<style>b</style>".text scriptedPage.withoutSheets.source
        "<script></script><style>a\nb</style>".text := by
  have hheadless : contains scriptedPage.withoutSheets.source "</head>".text = false := by decide
  refine ⟨by decide, by decide, by decide +kernel, ?_⟩
  rintro (⟨front, rest, hpage, -⟩ | ⟨-, hresult⟩)
  · exact (contains_eq_false_iff _ _).1 hheadless _ _ hpage
  · exact absurd hresult (by decide)

end Hoist

end Stencil
