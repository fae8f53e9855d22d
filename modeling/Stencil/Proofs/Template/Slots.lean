import Mathlib.Data.List.Induction
import Mathlib.Data.List.TakeWhile
import Stencil.Slot
import Stencil.Proofs.Document.Apart
import Stencil.Proofs.Document.Select
import Stencil.Proofs.Template.WellFormed

set_option autoImplicit false

/-! # Slots in texts and in documents

The slots read off the content of an import hold the sources of what the content supplies, and
filling the slots of a source gives the source of the filled document.
-/

namespace Stencil

open Text Html Vocabulary

namespace Html

/-! ## Filling -/

theorem Document.fill_of_lacks {supply : Text → Option Document} {d : Document}
    (h : d.Lacks slotTag) : d.fill supply = d := by
  induction d with
  | text s => rfl
  | element before tag content rest ihc ihr =>
      rw [fill, if_neg (h (tag, content) (by simp)), ihc fun x hx => h x (by simp [hx]),
        ihr fun x hx => h x (by simp [hx])]

/-- What is put in the place of a slot. -/
def slotValue (supply : Text → Option Document) (x : OpenTag × Document) : Document :=
  (supply x.1.slotName).getD (x.2.fill supply)

/-- Whether a slot gives way to its own content. -/
def keepsContent (supply : Text → Option Document) (x : OpenTag × Document) : Bool :=
  (supply x.1.slotName).isNone

/-- When every slot gives way to what is put in its place, the document is filled. -/
theorem Becomes.eq_fill {supply : Text → Option Document} {d : Document}
    (hd : ∀ x ∈ d.elements, x.1.WellFormed) {t : Text}
    (h : Becomes (fun x v => v = (slotValue supply x).source) (d.pieces (.ofName slotTag)) t) :
    t = (d.fill supply).source := by
  induction d generalizing t with
  | text s =>
      cases h with
      | text h =>
          cases h
          simp [Document.fill, Document.source]
  | element before tag content rest ihc ihr =>
      rw [Document.pieces, (hd (tag, content) (by simp)).selectedBy_ofName (by decide)] at h
      rw [Document.fill]
      by_cases hn : tag.name = slotTag
      · rw [decide_eq_true hn, if_pos rfl] at h
        cases h with
        | text h =>
            cases h with
            | live hv h =>
                rw [if_pos hn, hv, ihr (fun x hx => hd x (by simp [hx])) h]
                simp [slotValue]
      · rw [decide_eq_false hn, if_neg (by decide)] at h
        cases h with
        | text h =>
            obtain ⟨a, b, rfl, ha, hb⟩ := h.append_inv
            cases hb with
            | text hb =>
                rw [if_neg hn, ihc (fun x hx => hd x (by simp [hx])) ha,
                  ihr (fun x hx => hd x (by simp [hx])) hb]
                simp [Document.source]

end Html

namespace Slots

/-- Whether slots hold the sources of the documents that are supplied. -/
def Holds (slots : Slots) (supply : Text → Option Document) : Prop :=
  ∀ n, Table.filled? slots n = (supply n).map Document.source

theorem holds_none : Slots.none.Holds fun _ => Option.none := by
  intro n
  by_cases h : n = defaultSlot
  · rw [h]
    rfl
  · have hn : (n == defaultSlot) = false := by simpa using h
    simp [Slots.none, Table.filled?, Table.get?, List.lookup_cons, hn]

/-- Filling the slots of the source of a document that the turns clear gives the source of the
filled document. -/
theorem fillAll_source {slots : Slots} {supply : Text → Option Document} (hslots : slots.Holds supply)
    (hsupply : ∀ n e, supply n = some e → e.WellFormed ∧ e.Lacks slotTag) {d : Document}
    (hd : d.Plain) (hclears : d.Clears (.ofName slotTag) (keepsContent supply)) :
    slots.fillAll d.source = .ok (d.fill supply).source := by
  have hfn : ∀ x ∈ d.chosen (.ofName slotTag), ∀ p, (pure (fill slots (x.1.matchAt p x.2)) : Id Text)
      = pure (((supply x.1.slotName).map Document.source).getD x.2.source) := by
    intro x _ p
    rw [← hslots]
    rfl
  have hanswers : Answers d (.ofName slotTag) (keepsContent supply)
      (fun x => (pure (((supply x.1.slotName).map Document.source).getD x.2.source) : Id Text))
      fun x v => v = (slotValue supply x).source := by
    refine ⟨fun x _ hx => ?_, fun x _ hx => ?_, fun x hx ho v hv => ?_⟩
    · obtain ⟨e, he⟩ := Option.ne_none_iff_exists'.1 fun h : supply x.1.slotName = Option.none => by
        simp [keepsContent, h] at hx
      obtain ⟨hwf, hlacks⟩ := hsupply _ e he
      simp only [he, Option.map_some, Option.getD_some, slotValue]
      exact gives_pure ⟨hwf.quiet (hwf.untouched_of_lacks (by decide) hlacks), rfl⟩
    · rw [keepsContent, Option.isNone_iff_eq_none] at hx
      simp only [hx, Option.map_none, Option.getD_none]
    · rw [keepsContent, Option.isNone_iff_eq_none] at ho
      have hmem := (List.mem_filter.1 (Document.exposed_subset _ _ d hx)).1
      rw [hv.eq_fill (hd.content hmem).wellFormed.tag_of_mem, slotValue, ho]
      rfl
  obtain ⟨x, hx, hgives⟩ :=
    hd.exists_replaceMatches hclears (fun m => (pure (fill slots m) : Id Text)) hfn hanswers
  rw [fillAll, hx, ← hgives.id_run.2.eq_fill hd.wellFormed.tag_of_mem]
  rfl

end Slots

/-! ## Reading the slots -/

namespace Html

namespace Document

theorem withoutTemplates_prepend (s : Text) (d : Document) :
    (d.prepend s).withoutTemplates = d.withoutTemplates.prepend s := by
  cases d with
  | text t => rfl
  | element before tag content rest =>
      rw [prepend, withoutTemplates, withoutTemplates]
      split
      · simp only [text_append]
        cases rest.withoutTemplates <;> simp [prepend]
      · rfl

theorem exists_blank_trimLeft (d : Document) :
    ∃ l : Text, (∀ c ∈ l, isBlank c = true) ∧ d = d.trimLeft.prepend l := by
  cases d with
  | text s =>
      exact ⟨s.takeWhile isBlank, fun c hc => List.mem_takeWhile_imp hc,
        by simp [trimLeft, prepend, Text.trimLeft]⟩
  | element before tag content rest =>
      exact ⟨before.takeWhile isBlank, fun c hc => List.mem_takeWhile_imp hc,
        by simp [trimLeft, prepend, Text.trimLeft]⟩

theorem exists_blank_withoutTemplates (d : Document) :
    ∃ r : Text, (∀ c ∈ r, isBlank c = true) ∧
      d.withoutTemplates.source = d.trimRight.withoutTemplates.source ++ r := by
  induction d with
  | text s => exact exists_blank_trimRight s
  | element before tag content rest _ ih =>
      obtain ⟨r, hr, h⟩ := ih
      refine ⟨r, hr, ?_⟩
      rw [trimRight, withoutTemplates, withoutTemplates]
      split <;> simp [source, h]

/-- The blanks around a document do not count for what is left without its templates. -/
theorem trim_source_withoutTemplates (d : Document) :
    Text.trim d.trim.withoutTemplates.source = Text.trim d.withoutTemplates.source := by
  obtain ⟨l, hl, hd⟩ := d.exists_blank_trimLeft
  obtain ⟨r, hr, ht⟩ := d.trimLeft.exists_blank_withoutTemplates
  conv_rhs => rw [hd, withoutTemplates_prepend, source_prepend, ht, ← List.append_assoc]
  rw [trim_append_of_blank hl hr, trim]

theorem matchesFrom_prepend (s : Text) (d : Document) (p : Position) :
    (d.prepend s).matchesFrom p = d.matchesFrom (p.advance s) := by
  cases d with
  | text t => rfl
  | element before tag content rest =>
      simp [prepend, matchesFrom, Position.advance_append]

theorem matchesFrom_trimRight (d : Document) (p : Position) :
    d.trimRight.matchesFrom p = d.matchesFrom p := by
  induction d generalizing p with
  | text s => rfl
  | element before tag content rest _ ih => rw [trimRight, matchesFrom, ih, matchesFrom]

/-- Trimming a document moves its matches, but keeps the text of each. -/
theorem exists_selected_trim (sel : Selector) (d : Document) :
    ∃ p, d.selected sel .origin = d.trim.selected sel p := by
  obtain ⟨l, -, hd⟩ := d.exists_blank_trimLeft
  refine ⟨Position.origin.advance l, ?_⟩
  rw [selected, selected, trim, matchesFrom_trimRight]
  conv_lhs => rw [hd, matchesFrom_prepend]

end Document
end Html

namespace Slots

/-- The slot that a template fills. -/
def nameOf (m : Match) : Text := (m.attr? "name".text).getD []

/-- What templates fill, in order: the slot of each, with the text it puts there. -/
def fillings (ms : List Match) : List (Text × Text) := ms.map fun m => (nameOf m, trim m.inner)

/-- Taking a template out of a text is a replacement by nothing. -/
theorem patchOne_erase (body : Text) (m : Match) :
    patchOne (fun _ => (pure [] : Id Text)) .outer body m = pure (replaceFirst m.outer [] body) := by
  rw [patchOne]
  split
  · rename_i h
    simp only [Match.part, Bool.or_eq_true, List.isEmpty_iff, Bool.not_eq_true'] at h
    rcases h with h | h
    · rw [h, replaceFirst]
      cases body <;> rfl
    · rw [replaceFirst_eq_self [] h]
  · rfl

/-! ### One template -/

/-- A slot other than the default one changes when a template fills it. -/
theorem get?_addTemplate_of_ne {n : Text} (hn : n ≠ defaultSlot) (slots : Slots) (m : Match) :
    Table.get? (addTemplate slots m) n
      = if n = nameOf m then some (trim m.inner) else Table.get? slots n := by
  show Table.get? (Table.set (nameOf m) (trim m.inner)
    (if nameOf m = defaultSlot then slots else Table.set defaultSlot _ slots)) n = _
  by_cases h : n = nameOf m
  · rw [if_pos h, h, Table.get?_set_self]
  · rw [if_neg h, Table.get?_set_of_ne h]
    split
    · rfl
    · rw [Table.get?_set_of_ne hn]

/-- The default slot takes a template for it, and loses any other one. -/
theorem get?_addTemplate_default (slots : Slots) (m : Match) :
    Table.get? (addTemplate slots m) defaultSlot
      = some (if nameOf m = defaultSlot then trim m.inner
          else replaceFirst m.outer [] ((Table.get? slots defaultSlot).getD [])) := by
  show Table.get? (Table.set (nameOf m) (trim m.inner)
    (if nameOf m = defaultSlot then slots else Table.set defaultSlot _ slots)) defaultSlot = _
  by_cases h : nameOf m = defaultSlot
  · rw [if_pos h, if_pos h, h, Table.get?_set_self]
  · rw [if_neg h, if_neg h, Table.get?_set_of_ne (Ne.symm h), Table.get?_set_self]

theorem mem_names_addTemplate {slots : Slots} (hslots : defaultSlot ∈ Table.names slots) (m : Match)
    (n : Text) :
    n ∈ Table.names (addTemplate slots m) ↔ n = nameOf m ∨ n ∈ Table.names slots := by
  show n ∈ Table.names (Table.set (nameOf m) (trim m.inner)
    (if nameOf m = defaultSlot then slots else Table.set defaultSlot _ slots)) ↔ _
  rw [Table.mem_names_set]
  refine or_congr_right ?_
  split
  · rfl
  · rw [Table.mem_names_set, or_iff_right_iff_imp]
    rintro rfl
    exact hslots

theorem nodup_names_addTemplate {slots : Slots} (h : (Table.names slots).Nodup) (m : Match) :
    (Table.names (addTemplate slots m)).Nodup := by
  refine Table.nodup_names_set ?_ _ _
  show (Table.names (if nameOf m = defaultSlot then slots else _)).Nodup
  split
  exacts [h, Table.nodup_names_set h _ _]

/-! ### All templates -/

theorem mem_names_foldl {slots : Slots} (hslots : defaultSlot ∈ Table.names slots) (ms : List Match)
    (n : Text) :
    n ∈ Table.names (ms.foldl addTemplate slots) ↔ n ∈ ms.map nameOf ∨ n ∈ Table.names slots := by
  induction ms generalizing slots with
  | nil => simp
  | cons m ms ih =>
      have hnext := (mem_names_addTemplate hslots m defaultSlot).2 (Or.inr hslots)
      rw [List.foldl_cons, ih hnext, mem_names_addTemplate hslots, List.map_cons, List.mem_cons,
        or_assoc, or_left_comm]

theorem nodup_names_foldl {slots : Slots} (h : (Table.names slots).Nodup) (ms : List Match) :
    (Table.names (ms.foldl addTemplate slots)).Nodup :=
  List.foldlRecOn (motive := fun slots => (Table.names slots).Nodup) ms addTemplate h
    fun _ hslots m _ => nodup_names_addTemplate hslots m

/-- Every slot but the default one takes the last template of its name. -/
theorem get?_foldl_of_ne {n : Text} (hn : n ≠ defaultSlot) (ms : List Match) (slots : Slots) :
    Table.get? (ms.foldl addTemplate slots) n
      = ((fillings ms).reverse.lookup n).or (Table.get? slots n) := by
  induction ms generalizing slots with
  | nil => rfl
  | cons m ms ih =>
      have hfillings : fillings (m :: ms) = (nameOf m, trim m.inner) :: fillings ms := rfl
      rw [List.foldl_cons, ih, get?_addTemplate_of_ne hn, hfillings, List.reverse_cons,
        List.lookup_append, Option.or_assoc]
      congr 1
      by_cases h : n = nameOf m
      · simp [h]
      · have hb : (n == nameOf m) = false := by simpa using h
        simp [h, List.lookup_cons, hb]

/-- The default slot takes the last template for it. If there is none, it loses the templates one
after the other. No template is taken out of the text of another one. -/
theorem get?_foldl_default {ms : List Match}
    (hms : ∀ m ∈ ms, ∀ m' ∈ ms, contains (trim m.inner) m'.outer = false) {slots : Slots} {body : Text}
    (h : Table.get? slots defaultSlot = some body) :
    Table.get? (ms.foldl addTemplate slots) defaultSlot
      = some (((fillings ms).reverse.lookup defaultSlot).getD
          (Id.run (patch (fun _ => pure []) .outer body ms))) := by
  -- by induction from the end, where the last template for the slot is met first
  induction ms using List.reverseRecOn with
  | nil => exact h
  | append_singleton ms m ih =>
      have hbefore := ih fun a ha b hb => hms a (by simp [ha]) b (by simp [hb])
      have hpatch : Id.run (patch (fun _ => pure []) .outer body (ms ++ [m]))
          = replaceFirst m.outer [] (Id.run (patch (fun _ => pure []) .outer body ms)) := by
        simp [patch, List.foldlM_append, patchOne_erase]
      have hfillings : fillings (ms ++ [m]) = fillings ms ++ [(nameOf m, trim m.inner)] :=
        List.map_append
      rw [List.foldl_append, List.foldl_cons, List.foldl_nil, get?_addTemplate_default, hbefore, hpatch,
        hfillings, List.reverse_append, List.reverse_singleton, List.singleton_append, List.lookup_cons]
      by_cases hm : nameOf m = defaultSlot
      · have hb : (defaultSlot == nameOf m) = true := by simp [hm]
        rw [if_pos hm, hb]
        rfl
      · have hb : (defaultSlot == nameOf m) = false := by simpa using Ne.symm hm
        rw [if_neg hm, hb, Option.getD_some]
        cases hlookup : (fillings ms).reverse.lookup defaultSlot with
        | none => rfl
        | some text =>
            -- the slot holds the text of an earlier template, in which `m` does not stand
            obtain ⟨l, r, hl, -⟩ := List.lookup_eq_some_iff.1 hlookup
            have hmem : (defaultSlot, text) ∈ fillings ms := List.mem_reverse.1 (by simp [hl])
            obtain ⟨a, ha, e⟩ := List.mem_map.1 hmem
            rw [Option.getD_some, Option.getD_some, ← (Prod.mk.inj e).2,
              replaceFirst_eq_self [] (hms a (by simp [ha]) m (by simp))]

end Slots

/-! ## Templates at the top of a document -/

namespace Html.Document

/-- The templates that are matched in a document are those at its top. -/
theorem fillings_selected {d : Document} (hwf : ∀ x ∈ d.elements, x.1.WellFormed)
    (h : d.TemplatesOnTop) (p : Position) :
    Slots.fillings (d.selected (.ofName templateTag) p)
      = d.templates.map fun x => (x.1, Text.trim x.2.source) := by
  induction d generalizing p with
  | text s => rfl
  | element before tag content rest _ ihr =>
      have hcontent : content.Untouched (.ofName templateTag) :=
        (h (tag, content) (by simp)).untouched (by decide) fun x hx => hwf x (by simp [hx])
      have hrest := ihr (fun x hx => hwf x (by simp [hx])) h.rest
      rw [selected_element, templates, (hwf (tag, content) (by simp)).selectedBy_ofName (by decide),
        selected_of_untouched hcontent, List.nil_append]
      by_cases hn : tag.name = templateTag
      · rw [decide_eq_true hn, if_pos rfl, if_pos hn, List.singleton_append, Slots.fillings, List.map_cons,
          List.map_cons, ← hrest]
        rfl
      · rw [decide_eq_false hn, if_neg (by decide), if_neg hn, List.nil_append, hrest]

theorem splice_of_untouched {sel : Selector} {f : OpenTag → Document → Id Text} {d : Document}
    (h : d.Untouched sel) : d.splice sel f = pure d.source := by
  induction d with
  | text s => rfl
  | element before tag content rest ihc ihr =>
      rw [splice, h (tag, content) (by simp), if_neg (by decide), ihc fun x hx => h x (by simp [hx]),
        ihr fun x hx => h x (by simp [hx])]
      rfl

/-- Taking the templates out of a document. -/
theorem splice_templates {d : Document} (hwf : ∀ x ∈ d.elements, x.1.WellFormed)
    (h : d.TemplatesOnTop) :
    d.splice (.ofName templateTag) (fun _ _ => (pure [] : Id Text))
      = pure d.withoutTemplates.source := by
  induction d with
  | text s => rfl
  | element before tag content rest _ ihr =>
      have hcontent : content.Untouched (.ofName templateTag) :=
        (h (tag, content) (by simp)).untouched (by decide) fun x hx => hwf x (by simp [hx])
      rw [splice, withoutTemplates, (hwf (tag, content) (by simp)).selectedBy_ofName (by decide),
        ihr (fun x hx => hwf x (by simp [hx])) h.rest]
      by_cases hn : tag.name = templateTag
      · rw [decide_eq_true hn, if_pos rfl, if_pos hn]
        simp
      · rw [decide_eq_false hn, if_neg (by decide), if_neg hn, splice_of_untouched hcontent]
        simp [source]

/-- The text in which the templates are looked for one after the other ends without them. -/
theorem WellFormed.patch_templates {c : Document} (hwf : c.WellFormed) (h : c.TemplatesOnTop) :
    patch (fun _ => (pure [] : Id Text)) .outer (Text.trim c.source)
        (c.selected (.ofName templateTag) .origin)
      = pure c.trim.withoutTemplates.source := by
  have htrim := hwf.trim
  have hflat : c.trim.IsFlat (.ofName templateTag) := fun x hx _ =>
    (h.trim x hx).untouched (by decide) fun y hy =>
      htrim.tag_of_mem y (mem_elements_of_mem_content hx hy)
  obtain ⟨p, hp⟩ := c.exists_selected_trim (.ofName templateTag)
  have key : patch (fun _ => (pure [] : Id Text)) .outer ([] ++ c.trim.source ++ [])
        (c.trim.selected (.ofName templateTag) p ++ [])
      = c.trim.splice (.ofName templateTag) (fun _ _ => (pure [] : Id Text)) >>= fun t =>
          patch (fun _ => pure []) .outer ([] ++ t ++ []) [] :=
    htrim.patch_splice hflat (fun _ _ _ _ => rfl)
      (fun _ _ _ => gives_pure (everyTag_of_not_mem (by simp))) (everyTag_of_not_mem (by simp)) [] p
      []
  rw [splice_templates htrim.tag_of_mem h.trim] at key
  rw [hp, ← source_trim]
  simpa [patch] using key

/-- The text of a template does not stand in what another one holds. -/
theorem Plain.contains_template {c : Document} (hc : c.Plain) (h : c.TemplatesOnTop) {p : Position}
    {m m' : Match} (hm : m ∈ c.selected (.ofName templateTag) p)
    (hm' : m' ∈ c.selected (.ofName templateTag) p) :
    contains (Text.trim m.inner) m'.outer = false := by
  obtain ⟨x, hx, q, rfl⟩ := exists_of_mem_matchesFrom (List.mem_filter.1 hm).1
  obtain ⟨y, hy, r, rfl⟩ := exists_of_mem_matchesFrom (List.mem_filter.1 hm').1
  have hselected : y.1.selectedBy (.ofName templateTag) = true := (List.mem_filter.1 hm').2
  have hinner := (hc.content hx).wellFormed.trim
  have hquiet : Quiet (.ofName templateTag) (Text.trim x.2.source) := by
    rw [← source_trim]
    exact hinner.quiet (hinner.untouched_of_lacks (by decide) (by simpa [Lacks] using h x hx))
  have houter : (y.1.matchAt r y.2).outer = _ := outer_matchAt y.1 r y.2
  have ht := hc.wellFormed.tag_of_mem y hy
  rw [houter]
  exact hquiet.contains_eq_false ht.gt_not_mem (by rw [isQuietInside_inside ht, hselected]; decide) _

end Html.Document

/-! ## The slots that a content fills -/

namespace Slots

theorem lookup_map {α : Type} (f : α → Text) (l : List (Text × α)) (n : Text) :
    (l.map fun x => (x.1, f x.2)).lookup n = (l.lookup n).map f := by
  induction l with
  | nil => rfl
  | cons a l ih =>
      rw [List.map_cons, List.lookup_cons, List.lookup_cons, ih]
      split <;> rfl

/-- The slots after the templates of a content, before the last trimming. -/
def afterTemplates (c : Document) : Slots :=
  (c.selected (.ofName templateTag) .origin).foldl addTemplate [(defaultSlot, trim c.source)]

/-- The slots that a content fills. -/
def contentSlots (c : Document) : Slots :=
  Table.set defaultSlot (trim ((Table.get? (afterTemplates c) defaultSlot).getD []))
    (afterTemplates c)

theorem ofContent_source {c : Document} (hc : c.WellFormed) :
    ofContent c.source = .ok (contentSlots c) := by
  rw [ofContent, hc.matchesIn_all]
  rfl

section

variable {c : Document} (hc : c.Plain) (h : c.TemplatesOnTop)

include hc h

theorem lookup_fillings (n : Text) :
    (fillings (c.selected (.ofName templateTag) .origin)).reverse.lookup n
      = (c.templates.reverse.lookup n).map fun e => trim e.source := by
  rw [Document.fillings_selected hc.wellFormed.tag_of_mem h, ← List.map_reverse,
    lookup_map fun e : Document => trim e.source]

theorem get?_contentSlots_of_ne {n : Text} (hn : n ≠ defaultSlot) :
    Table.get? (contentSlots c) n = (c.templates.reverse.lookup n).map fun e => trim e.source := by
  have hfirst : Table.get? [(defaultSlot, trim c.source)] n = Option.none := by
    have hb : (n == defaultSlot) = false := by simpa using hn
    simp [Table.get?, List.lookup_cons, hb]
  rw [contentSlots, Table.get?_set_of_ne hn, afterTemplates, get?_foldl_of_ne hn, hfirst,
    Option.or_none, lookup_fillings hc h]

theorem get?_contentSlots_default :
    Table.get? (contentSlots c) defaultSlot
      = some (trim ((c.templates.reverse.lookup defaultSlot).getD c.withoutTemplates).source) := by
  have hfirst : Table.get? [(defaultSlot, trim c.source)] defaultSlot = some (trim c.source) := by
    simp [Table.get?]
  rw [contentSlots, Table.get?_set_self, afterTemplates,
    get?_foldl_default (fun m hm m' hm' => hc.contains_template h hm hm') hfirst,
    lookup_fillings hc h, hc.wellFormed.patch_templates h]
  cases c.templates.reverse.lookup defaultSlot with
  | none => exact congrArg some c.trim_source_withoutTemplates
  | some e => exact congrArg some (trim_trim e.source)

theorem mem_names_contentSlots (n : Text) :
    n ∈ Table.names (contentSlots c) ↔ n = defaultSlot ∨ n ∈ c.templates.map Prod.fst := by
  have hnames : (c.selected (.ofName templateTag) .origin).map nameOf = c.templates.map Prod.fst := by
    have key := congrArg (List.map Prod.fst)
      (Document.fillings_selected hc.wellFormed.tag_of_mem h .origin)
    simpa [fillings, Function.comp_def] using key
  rw [contentSlots, Table.mem_names_set, afterTemplates,
    mem_names_foldl (by simp [Table.names]), hnames]
  simp only [Table.names, List.map_singleton, List.mem_singleton]
  rw [or_comm (b := n = defaultSlot), ← or_assoc, or_self]

omit hc h in
theorem nodup_names_contentSlots : (Table.names (contentSlots c)).Nodup := by
  rw [contentSlots]
  exact Table.nodup_names_set (nodup_names_foldl (by simp [Table.names]) _) _ _

end

/-- The content of an import is split up between the slots: the templates of a name go to the slot of
that name, where the last one stays, and all that is in no template goes to the default slot, unless
a template is meant for that. -/
theorem ofContent_partitions {c : Document} (hc : c.Plain) (h : c.TemplatesOnTop) :
    ∃ slots, ofContent c.source = .ok slots ∧ (Table.names slots).Nodup ∧
      (∀ n, n ∈ Table.names slots ↔ n = defaultSlot ∨ n ∈ c.templates.map Prod.fst) ∧
      (∀ n, n ≠ defaultSlot → Table.get? slots n
        = (c.templates.reverse.lookup n).map fun e => trim e.source) ∧
      Table.get? slots defaultSlot
        = some (trim ((c.templates.reverse.lookup defaultSlot).getD c.withoutTemplates).source) :=
  ⟨_, ofContent_source hc.wellFormed, nodup_names_contentSlots, mem_names_contentSlots hc h,
    fun _ => get?_contentSlots_of_ne hc h, get?_contentSlots_default hc h⟩

/-- Two templates that are alike, with a nameless one between them and other elements around them. -/
def alikeTemplates : Document :=
  let named : OpenTag := ⟨templateTag, [⟨[' '], "name".text, "side".text⟩], []⟩
  .element "x ".text named (.text " 1 ".text) <|
  .element [] (.bare templateTag) (.element [] (.bare ['b']) (.text "2".text) (.text [])) <|
  .element "y".text (.bare ['p']) (.text "z".text) <|
  .element [] named (.text " 1 ".text) <|
  .text " ".text

/-- The same with a template for the default slot in front. -/
def frontTemplate : Document :=
  .element [] ⟨templateTag, [⟨[' '], "name".text, defaultSlot⟩], []⟩ (.text "3".text) alikeTemplates

theorem ofContent_partitions_alikeTemplates :
    alikeTemplates.Plain ∧ alikeTemplates.TemplatesOnTop ∧
      (∃ slots, ofContent alikeTemplates.source = .ok slots ∧
        Table.get? slots "side".text = some "1".text ∧
        Table.get? slots [] = some "<b>2</b>".text ∧
        Table.get? slots defaultSlot = some "x y<p>z</p>".text) ∧
      frontTemplate.Plain ∧ frontTemplate.TemplatesOnTop ∧
      ∃ slots, ofContent frontTemplate.source = .ok slots ∧
        Table.get? slots defaultSlot = some "3".text := by
  have hplain : alikeTemplates.Plain := by decide +kernel
  have htop : alikeTemplates.TemplatesOnTop := by decide +kernel
  have hplain' : frontTemplate.Plain := by decide +kernel
  have htop' : frontTemplate.TemplatesOnTop := by decide +kernel
  obtain ⟨slots, hslots, -, -, hnamed, hdefault⟩ := ofContent_partitions hplain htop
  obtain ⟨slots', hslots', -, -, -, hdefault'⟩ := ofContent_partitions hplain' htop'
  refine ⟨hplain, htop, ⟨slots, hslots, ?_, ?_, ?_⟩, hplain', htop', slots', hslots', ?_⟩
  · rw [hnamed _ (by decide)]
    decide +kernel
  · rw [hnamed _ (by decide)]
    decide +kernel
  · rw [hdefault]
    decide +kernel
  · rw [hdefault']
    decide +kernel

theorem name_ne_default {d : Document} {inside : Bool} (h : d.templatesPlaced inside = true)
    {x : Text × Document} (hx : x ∈ d.templates) : x.1 ≠ defaultSlot := by
  induction d with
  | text s => simp [Document.templates] at hx
  | element before tag content rest _ ihr =>
      rw [Document.templatesPlaced, Bool.and_eq_true] at h
      rw [Document.templates] at hx
      split at hx
      · rename_i hn
        rcases List.mem_cons.1 hx with rfl | hx
        · have hnames := h.1
          rw [if_pos hn] at hnames
          simp only [Bool.and_eq_true, OpenTag.namesSlot] at hnames
          obtain ⟨n, hn, hne⟩ := (Option.any_eq_true _ _).1 hnames.1.2
          simp only [Bool.and_eq_true, bne_iff_ne] at hne
          rw [hn]
          exact hne.2
        · exact ihr h.2 hx
      · exact ihr h.2 hx

/-- The slots that the content of an import fills hold what it supplies. -/
theorem holds_ofContent {c : Document} (h : c.IsImportContent) :
    ∃ slots, ofContent c.source = .ok slots ∧ slots.Holds c.supply := by
  have hc : c.Plain := ⟨h.wellFormed, h.rawless⟩
  refine ⟨_, ofContent_source hc.wellFormed, fun n => ?_⟩
  rw [Table.filled?, Document.supply, Document.given]
  by_cases hn : n = defaultSlot
  · have hnone : c.templates.reverse.lookup defaultSlot = Option.none := by
      rw [List.lookup_eq_none_iff]
      intro x hx
      simpa using (name_ne_default h.placed (List.mem_reverse.1 hx)).symm
    rw [hn, get?_contentSlots_default hc h.templatesOnTop, hnone, if_pos rfl, Option.getD_none,
      ← Document.source_trim, Option.map_some]
    simp only [Option.filter_some]
    split <;> rfl
  · rw [get?_contentSlots_of_ne hc h.templatesOnTop hn, if_neg hn]
    cases c.templates.reverse.lookup n with
    | none => rfl
    | some e =>
        simp only [Option.map_some, Option.filter_some, Document.source_trim]
        split <;> simp [Document.source_trim]

end Slots
end Stencil
