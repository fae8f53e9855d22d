import Stencil.Hoist
import Stencil.Proofs.Document.Select
import Stencil.Proofs.Flow.Patch
import Stencil.Proofs.Flow.Sheets
import Stencil.Proofs.Source.Inclusion
import Stencil.Proofs.Source.Sealed

set_option autoImplicit false

/-! # Hoisting the style sheets of a flow

The style sheets are taken out by their text, one after the other, and what is left is searched
for more by its look. So a sheet in a comment is hoisted as well, and so is what only looks like
one. Where no hidden text holds anything of the kind, the text in front of a sheet is sealed: the
sheet stands there first, and nothing is found in the second search.
-/

namespace Stencil

open Text Html

namespace Html

/-! ## Sealed flows -/
theorem OpenTag.source_eq_cons (t : OpenTag) : t.source = char '<' :: (t.inside ++ [char '>']) := by
  simp [source]

/-- Nothing that looks like a style sheet begins in a script, unless it begins in its content. -/
theorem not_beginsElement_script {t : OpenTag} (ht : t.IsWritten) (hname : t.name = "script".text)
    {hidden : Text} (hhidden : leftovers sheetName hidden = []) {b : Text}
    (hb : b <:+ t.source ++ hidden) : ¬ BeginsElement sheetName b := by
  obtain ⟨a, hab⟩ := hb
  rcases List.append_eq_append_iff.1 hab with ⟨b', hsource, rfl⟩ | ⟨a', -, hrest⟩
  · by_cases hne : b' = []
    · rw [hne]
      exact leftovers_eq_nil_iff.1 hhidden _ List.suffix_rfl
    · rintro ⟨u, r, e, -⟩
      obtain ⟨c, b', rfl⟩ := List.exists_cons_of_ne_nil hne
      obtain ⟨rfl, e⟩ := List.cons.inj e
      -- the only `<` of the start tag is its first character
      rw [OpenTag.source_eq_cons] at hsource
      cases a with
      | nil =>
          obtain rfl := (List.cons.inj hsource).2
          rw [OpenTag.inside, hname] at e
          have hletters : char 's' :: char 'c' :: _
              = char 's' :: char 't' :: _ :=
            (List.cons.inj e).2
          exact absurd (List.cons.inj (List.cons.inj hletters).2).1 (by decide)
      | cons d a =>
          have hmem : char '<' ∈ t.inside ++ [char '>'] := by
            rw [(List.cons.inj hsource).2]
            simp
          simp [ht.lt_not_mem] at hmem
  · exact leftovers_eq_nil_iff.1 hhidden b ⟨a', hrest.symm⟩

namespace Chunk

theorem sealed_comment {s : Text} (h : leftovers sheetName (comment s).hidden = []) :
    Sealed sheetName (comment s).source := by
  have hfirst : (comment s).source = char '<' :: char '!' :: ("--".text ++ s ++ "-->".text) := by
    simp [source]
  have hlast : [char '>'] <:+ (comment s).source :=
    ⟨"<!--".text ++ s ++ "--".text, by simp [source]⟩
  exact sealed_of_element (by decide) (by decide) hfirst hlast (leftovers_eq_nil_iff.1 h)

theorem sealed_declaration {s : Text} (hs : isDeclaration s = true)
    (h : leftovers sheetName (declaration s).hidden = []) :
    Sealed sheetName (declaration s).source := by
  obtain ⟨c, r, rfl, hc⟩ : ∃ c r, s = c :: r ∧ c ≠ '/' := by
    cases s with
    | nil => cases hs
    | cons c r =>
        refine ⟨c, r, rfl, ?_⟩
        rintro rfl
        cases hs
  have hlast : [char '>'] <:+ (declaration (c :: r)).source := ⟨char '<' :: c :: r, rfl⟩
  exact sealed_of_element (by decide) hc rfl hlast (leftovers_eq_nil_iff.1 h)

theorem sealed_script {t : OpenTag} (ht : t.IsWritten) (hname : t.name = "script".text) {s : Text}
    (h : leftovers sheetName (raw t s).hidden = []) : Sealed sheetName (raw t s).source := by
  have hfirst : (raw t s).source
      = char '<' :: char 's' ::
          ("cript".text ++ t.trailer ++ [char '>'] ++ (s ++ endTagText t.name)) := by
    rw [source, OpenTag.source_eq_cons, OpenTag.inside, hname]
    rfl
  have hlast : [char '>'] <:+ (raw t s).source :=
    ⟨t.source ++ (s ++ ([char '<', char '/'] ++ t.name)), by simp [source, endTagText]⟩
  exact sealed_of_element (by decide) (by decide) hfirst hlast fun b hb =>
    not_beginsElement_script ht hname h hb

/-- A chunk is sealed for style sheets when it neither is one nor closes one, and none is hidden
in it. -/
theorem IsReadable.sealed {c : Chunk} (h : c.IsReadable) (hsheet : c.sheet? = none)
    (hclose : c ≠ .closing sheetName) (hhidden : leftovers sheetName c.hidden = []) :
    Sealed sheetName c.source := by
  have hgt : char '>' ∉ sheetName := by decide
  cases c with
  | opening t =>
      exact sealed_tag hgt h.1.lt_not_mem h.1.gt_not_mem (inside_ne_cons h.1 (by decide) sheetName)
  | closing name =>
      have hlt : char '<' ∉ char '/' :: name := by
        simpa using not_mem_of_isElementName h (a := '<') (by decide)
      have hclosed : char '>' ∉ char '/' :: name := by
        simpa using not_mem_of_isElementName h (a := '>') (by decide)
      refine sealed_tag hgt hlt hclosed fun e => ?_
      obtain rfl : name = sheetName := (List.cons.inj e).2
      exact hclose rfl
  | comment s => exact sealed_comment hhidden
  | declaration s => exact sealed_declaration h.1 hhidden
  | raw t s =>
      obtain ⟨ht, -, hraw, -, -⟩ := h
      rcases List.mem_cons.1 hraw with hscript | hstyle
      · exact sealed_script ht hscript hhidden
      · have hname : t.name = sheetName := List.mem_singleton.1 hstyle
        rw [sheet?, if_pos hname] at hsheet
        cases hsheet

end Chunk

namespace Flow

/-- What it takes that the style sheets of a flow are all that is hoisted, from where they stand: no
end tag of a style sheet stands alone, and no hidden text holds what looks like one. -/
def ShowsSheets (f : Flow) : Prop :=
  Chunk.closing sheetName ∉ f.chunks ∧ ∀ c ∈ f.chunks, leftovers sheetName c.hidden = []

instance : DecidablePred ShowsSheets := fun f =>
  inferInstanceAs (Decidable (Chunk.closing sheetName ∉ f.chunks ∧
    ∀ c ∈ f.chunks, leftovers sheetName c.hidden = []))

theorem ShowsSheets.rest {before : Text} {c : Chunk} {rest : Flow}
    (h : (chunk before c rest).ShowsSheets) : rest.ShowsSheets :=
  ⟨fun hm => h.1 (List.mem_cons_of_mem c hm), fun d hd => h.2 d (List.mem_cons_of_mem c hd)⟩

theorem ShowsSheets.sealed {before : Text} {c : Chunk} {rest : Flow}
    (h : (chunk before c rest).ShowsSheets) (hc : c.IsReadable) (hsheet : c.sheet? = none) :
    Sealed sheetName c.source :=
  hc.sealed hsheet (fun e => h.1 (e ▸ List.mem_cons_self)) (h.2 c List.mem_cons_self)

/-- Without its style sheets the source of a flow is sealed for them. -/
theorem IsCut.sealed_withoutSheets {f : Flow} (hf : f.IsCut) (h : f.ShowsSheets) :
    Sealed sheetName f.withoutSheets.source := by
  induction f with
  | text s => exact sealed_of_not_mem hf
  | chunk before c rest ih =>
      obtain ⟨hbefore, hc, hrest⟩ := hf
      have hfront : Sealed sheetName before := sealed_of_not_mem hbefore
      rw [Flow.withoutSheets]
      cases hsheet : c.sheet? with
      | some css =>
          rw [if_pos Option.isSome_some, source_prepend]
          exact hfront.append (ih hrest h.rest) (by decide)
      | none =>
          rw [if_neg (by decide), source]
          exact (hfront.append (h.sealed hc hsheet) (by decide)).append (ih hrest h.rest) (by decide)

end Flow

/-! ## Taking the style sheets out -/

/-- Behind a sealed text a style sheet is replaced where it stands. -/
theorem patchOne_sheet {m : Type → Type} [Monad m] {fn : Match → m Text} {t : OpenTag} {s : Text}
    (h : (Chunk.raw t s).IsReadable) (hname : t.name = sheetName) {found : Match}
    (hfound : (Chunk.raw t s).IsMatch found) {pre : Text} (hpre : Sealed sheetName pre)
    (post : Text) :
    patchOne fn .outer (pre ++ (Chunk.raw t s).source ++ post) found
      = fn found >>= fun v => pure (pre ++ v ++ post) := by
  obtain ⟨ht, hcss⟩ := h.wellFormed_sheet hname
  obtain ⟨u, hu, -, hstart⟩ := hfound.start
  obtain rfl := Option.some.inj hu
  obtain ⟨hinner, hclose⟩ := hfound.sheet t s rfl hname
  have hpart : found.part .outer = (Chunk.raw t s).source := by
    rw [Match.part, Match.outer, hstart, hinner, hclose, Chunk.source, List.append_assoc]
  have hshape : (Chunk.raw t s).source
      = char '<' :: (sheetName ++ (t.trailer ++ char '>' :: s)) ++ endTagText sheetName := by
    simp [Chunk.source, OpenTag.source, OpenTag.inside, hname]
  have htrailer : char '<' ∉ t.trailer ++ char '>' :: s := by
    have hinside : char '<' ∉ t.trailer := fun hm => ht.lt_not_mem (List.mem_append_right _ hm)
    simp [hinside, hcss]
  have hopen : ¬ ClosesFirst sheetName ((Chunk.raw t s).source ++ post) := by
    rw [hshape]
    exact not_closesFirst_cons (c := 's') (by decide) _
  -- A copy that began in the sealed text would have to end behind it, where a tag opens first.
  have hcut : cut? (found.part .outer) (pre ++ (Chunk.raw t s).source ++ post) = some (pre, post) := by
    rw [hpart]
    refine cut?_append fun a b hab hne => ?_
    rw [after?_eq_none_iff]
    intro r e
    refine hpre.not_beginsElement_append (by decide) hopen ⟨a, hab.symm⟩ hne ?_
    refine ⟨t.trailer ++ char '>' :: s, r, ?_, htrailer, by simp⟩
    rw [← hshape, ← e, List.append_assoc]
  exact patchOne_of_cut? (by simp [hpart, hshape]) hcut

theorem Chunk.IsReadable.selectedBy_sheetName {c : Chunk} (h : c.IsReadable) :
    c.selectedBy (.ofName sheetName) = c.sheet?.isSome := by
  cases c with
  | opening t =>
      have hne : t.name ≠ sheetName := fun e => h.2 (by rw [e]; decide)
      rw [Chunk.selectedBy_of_tag? _ rfl, h.1.selectedBy_ofName (by decide)]
      exact decide_eq_false hne
  | raw t s =>
      rw [Chunk.selectedBy_of_tag? _ rfl, h.1.selectedBy_ofName (by decide), sheet?]
      split <;> simp [*]
  | _ => rfl

namespace Flow

/-- The style sheets of the last part of a flow are taken out one after the other, and their texts
are kept, the latest first. -/
theorem IsCut.patch_collect {rest : Flow} (hcut : rest.IsCut) (h : rest.ShowsSheets) {pre : Text}
    (hpre : Sealed sheetName pre) {ms : List Match}
    (hms : List.Forall₂ Chunk.IsMatch (rest.chunks.filter (·.selectedBy (.ofName sheetName))) ms)
    (kept : List Text) :
    (patch Hoist.collect .outer (pre ++ rest.source) ms).run kept
      = (pre ++ rest.withoutSheets.source, rest.sheets.reverse ++ kept) := by
  -- What has been passed goes into `pre`, without the style sheets, so that it stays sealed.
  induction rest generalizing pre ms kept with
  | text s =>
      obtain rfl := List.forall₂_nil_left_iff.1 hms
      rfl
  | chunk before c rest ih =>
      obtain ⟨hbefore, hc, hrest⟩ := hcut
      have hfront : Sealed sheetName (pre ++ before) :=
        hpre.append (sealed_of_not_mem hbefore) (by decide)
      have hsource : pre ++ (Flow.chunk before c rest).source
          = pre ++ before ++ c.source ++ rest.source := by simp [Flow.source]
      rw [chunks, List.filter_cons, hc.selectedBy_sheetName] at hms
      rw [hsource, Flow.withoutSheets, sheets, chunks, List.filterMap_cons]
      cases hsheet : c.sheet? with
      | some css =>
          rw [hsheet, if_pos Option.isSome_some] at hms
          obtain ⟨m, ms, hm, hlater, rfl⟩ := List.forall₂_cons_left_iff.1 hms
          obtain ⟨t, rfl, hname⟩ := Chunk.exists_of_sheet? hsheet
          obtain ⟨hinner, -⟩ := hm.sheet t css rfl hname
          have hstep : (patchOne Hoist.collect .outer
              (pre ++ before ++ (Chunk.raw t css).source ++ rest.source) m).run kept
                = (pre ++ before ++ rest.source, css :: kept) := by
            rw [patchOne_sheet hc hname hm hfront, ← hinner]
            show (pre ++ before ++ [] ++ rest.source, m.inner :: kept) = _
            rw [List.append_nil]
          rw [patch_cons, StateT.run_bind, hstep]
          show (patch Hoist.collect .outer (pre ++ before ++ rest.source) ms).run (css :: kept) = _
          rw [ih hrest h.rest hfront hlater (css :: kept)]
          simp [source_prepend, sheets]
      | none =>
          rw [hsheet, if_neg (by decide)] at hms
          rw [ih hrest h.rest (hfront.append (h.sealed hc hsheet) (by decide)) hms kept]
          simp [source, sheets]

/-- Nothing but the style sheets of a flow is hoisted. -/
theorem IsReadable.replaceMatches_collect {f : Flow} (hf : f.IsReadable) (h : f.ShowsSheets) :
    (replaceMatches Hoist.collect .outer (.ofName sheetName) none f.source).run.run []
      = (.ok f.withoutSheets.source, f.sheets.reverse) := by
  obtain ⟨ms, hms, hmatches⟩ := hf.matchesIn_source (.ofName sheetName) none
  have hpatch : (patch Hoist.collect .outer f.source ms).run []
      = (f.withoutSheets.source, f.sheets.reverse) := by
    have key := hf.isCut.patch_collect h (sealed_of_not_mem (s := []) (by simp)) hmatches []
    simpa using key
  have hleft : leftovers sheetName f.withoutSheets.source = [] :=
    (hf.isCut.sealed_withoutSheets h).leftovers_eq_nil
  have hbare : (Selector.ofName sheetName).bareName? = some sheetName := by decide
  have hfound : (liftM (Except.ok ms : Except Overlong _) : ExceptT Overlong (StateM (List Text)) _)
      = pure ms := rfl
  rw [replaceMatches, hms, hfound, pure_bind, hbare]
  refine (congrArg (StateT.run · [])
    (ExceptT.run_bind_lift (patch Hoist.collect .outer f.source ms) _)).trans ?_
  rw [StateT.run_bind, hpatch]
  show (ExceptT.run (if (leftovers sheetName f.withoutSheets.source).isEmpty = true then _ else _ :
    ExceptT Overlong (StateM (List Text)) Text)).run f.sheets.reverse = _
  rw [hleft, if_pos List.isEmpty_nil]
  rfl

/-! ## Putting the style sheet in -/

/-- Whether no text hidden in front of the first end tag of a head holds a copy of that tag. -/
def HidesNoHead (f : Flow) : Prop :=
  ∀ c ∈ f.chunks.takeWhile (· ≠ .closing headName), contains c.hidden (endTagText headName) = false

instance : DecidablePred HidesNoHead := fun f =>
  inferInstanceAs (Decidable (∀ c ∈ f.chunks.takeWhile (· ≠ .closing headName),
    contains c.hidden (endTagText headName) = false))

theorem hidesNoHead_chunk {before : Text} {c : Chunk} {rest : Flow} (hc : c ≠ .closing headName) :
    (chunk before c rest).HidesNoHead ↔
      contains c.hidden (endTagText headName) = false ∧ rest.HidesNoHead := by
  rw [HidesNoHead, chunks, List.takeWhile_cons_of_pos (by simpa using hc), List.forall_mem_cons]
  rfl

theorem HidesNoHead.withoutSheets {f : Flow} (h : f.HidesNoHead) : f.withoutSheets.HidesNoHead := by
  induction f with
  | text s => exact h
  | chunk before c rest ih =>
      rw [Flow.withoutSheets]
      by_cases hhead : c = .closing headName
      · -- nothing is asked of what follows
        subst hhead
        intro d hd
        simp [Chunk.sheet?, chunks] at hd
      · obtain ⟨hhidden, hlater⟩ := (hidesNoHead_chunk hhead).1 h
        split
        · rw [HidesNoHead, chunks_prepend]
          exact ih hlater
        · exact (hidesNoHead_chunk hhead).2 ⟨hhidden, ih hlater⟩

/-- The style sheet of a flow stands in front of the first place where a head is closed, or at the
end of a source in which none is. -/
theorem IsCut.source_withSheet {f : Flow} (hf : f.IsCut) (h : f.HidesNoHead) (css : Text) :
    (∃ front rest, EveryTag (· ≠ char '/' :: headName) front ∧
      f.source = front ++ endTagText headName ++ rest ∧
      (f.withSheet css).source
        = front ++ ((Chunk.ofSheet css).source ++ endTagText headName) ++ rest) ∨
    EveryTag (· ≠ char '/' :: headName) f.source ∧
      (f.withSheet css).source = f.source ++ (Chunk.ofSheet css).source := by
  induction f with
  | text s => exact Or.inr ⟨everyTag_of_not_mem hf, by simp [withSheet, source]⟩
  | chunk before c rest ih =>
      obtain ⟨hbefore, hc, hrest⟩ := hf
      have htexts := everyTag_of_not_mem (P := (· ≠ char '/' :: headName)) hbefore
      rw [withSheet]
      by_cases hhead : c = .closing headName
      · rw [if_pos hhead, hhead]
        exact Or.inl ⟨before, rest.source, htexts, rfl, by simp [source, Chunk.source]⟩
      · obtain ⟨hhidden, hlater⟩ := (hidesNoHead_chunk hhead).1 h
        have hchunk : EveryTag (· ≠ char '/' :: headName) c.source := by
          refine hc.everyTag (fun t ht => inside_ne_cons (hc.tag ht) (by decide) headName) ?_ ?_
          · rintro name rfl e
            exact hhead (by rw [(List.cons.inj e).2])
          · refine c.everyTag_hidden fun x hx e => ?_
            rw [e] at hx
            exact absurd (hx.symm.trans hhidden) (by decide)
        have hfront := htexts.append hchunk
        rw [if_neg hhead]
        rcases ih hrest hlater with ⟨front, last, hevery, hsource, hsheet⟩ | ⟨hevery, hsheet⟩
        · refine Or.inl ⟨before ++ c.source ++ front, last, hfront.append hevery, ?_, ?_⟩
          · simp [source, hsource]
          · simp [source, hsheet]
        · exact Or.inr ⟨hfront.append hevery, by simp [source, hsheet]⟩

theorem IsCut.insert_source {f : Flow} (hf : f.IsCut) (h : f.HidesNoHead) (sheets : List Text) :
    Hoist.insert sheets f.source = (f.withSheet (join ['\n'] sheets)).source := by
  have hstyle : startTagText "style".text [] ++ join ['\n'] sheets ++ endTagText "style".text
      = (Chunk.ofSheet (join ['\n'] sheets)).source := by
    simp [startTagText, Chunk.ofSheet, Chunk.source, OpenTag.bare, OpenTag.source, OpenTag.inside,
      OpenTag.trailer, sheetName]
  have htag : endTagText headName = char '<' :: (char '/' :: headName ++ char '>' :: []) := rfl
  have hgt : char '>' ∉ char '/' :: headName := by decide
  rw [Hoist.insert, hstyle]
  show (if contains f.source (endTagText headName) = true then
    replaceFirst (endTagText headName) (_ ++ endTagText headName) f.source else _) = _
  rcases hf.source_withSheet h (join ['\n'] sheets) with
    ⟨front, rest, hevery, hsource, hsheet⟩ | ⟨hevery, hsheet⟩
  · have hcut : cut? (endTagText headName) f.source = some (front, rest) := by
      rw [hsource, htag]
      exact hevery.cut?_append hgt (by simp)
    rw [if_pos (contains_of_cut? hcut), replaceFirst_of_cut? _ hcut, hsheet]
  · have hnone : contains f.source (endTagText headName) = false := by
      rw [htag]
      exact hevery.contains_eq_false hgt (by simp) []
    rw [hnone, if_neg (by decide), hsheet]

/-! ## Hoisting -/

/-- What it takes that hoisting moves the style sheets of a flow and does nothing else: there are
no wrappers to take out and no end tags to write out, and no hidden text holds what looks like a
style sheet or, in front of the place where the sheet is put, like the end of the head. -/
structure IsHoistable (f : Flow) : Prop where
  unwrapped : ∀ t ∈ f.tags, t.table.has Vocabulary.wrapperAttr = false
  expanded : expandSelfClosing f.source = f.source
  sheets : f.ShowsSheets
  head : f.sheets ≠ [] → f.HidesNoHead

instance : DecidablePred IsHoistable := fun f =>
  decidable_of_iff ((∀ t ∈ f.tags, t.table.has Vocabulary.wrapperAttr = false) ∧
      expandSelfClosing f.source = f.source ∧ f.ShowsSheets ∧ (f.sheets ≠ [] → f.HidesNoHead))
    ⟨fun ⟨h₁, h₂, h₃, h₄⟩ => ⟨h₁, h₂, h₃, h₄⟩, fun ⟨h₁, h₂, h₃, h₄⟩ => ⟨h₁, h₂, h₃, h₄⟩⟩

/-- A flow without wrappers is cleared of none. -/
theorem IsReadable.clear_source {f : Flow} (hf : f.IsReadable)
    (hplain : ∀ t ∈ f.tags, t.table.has Vocabulary.wrapperAttr = false)
    (hexpanded : expandSelfClosing f.source = f.source) :
    Wrapper.clear f.source = .ok f.source := by
  have hnone : f.chunks.filter (·.selectedBy (.ofAttr Vocabulary.wrapperAttr)) = [] := by
    rw [List.filter_eq_nil_iff]
    intro c hc hsel
    obtain ⟨t, ht, hselected⟩ := Chunk.exists_of_selectedBy hsel
    rw [OpenTag.selectedBy_ofAttr (by decide), hplain t (mem_tags.2 ⟨c, hc, ht⟩)] at hselected
    cases hselected
  obtain ⟨ms, hms, hmatches⟩ := hf.matchesIn_source (.ofAttr Vocabulary.wrapperAttr) none
  rw [hnone] at hmatches
  have hnil := List.forall₂_nil_left_iff.1 hmatches
  rw [Wrapper.clear, hexpanded, replaceMatches_of_matchesIn_nil (hnil ▸ hms) (by decide)]
  rfl

/-- Hoisting the source of a hoistable flow gives the source of the hoisted flow. -/
theorem IsReadable.styles_eq_hoisted {f : Flow} (hf : f.IsReadable) (h : f.IsHoistable) :
    Hoist.styles f.source = .ok f.hoisted.source := by
  have hrun :
      (replaceMatches Hoist.collect .outer (.ofName "style".text) none f.source).run.run [] =
        (.ok f.withoutSheets.source, f.sheets.reverse) := hf.replaceMatches_collect h.sheets
  have hstyles : Hoist.styles f.source
      = .ok (if f.sheets.reverse.isEmpty then f.withoutSheets.source
          else Hoist.insert f.sheets.reverse f.withoutSheets.source) := by
    rw [Hoist.styles, hf.clear_source h.unwrapped h.expanded]
    exact congrArg (fun r : Except Overlong Text × List Text =>
      r.1 >>= fun page => pure (if r.2.isEmpty then page else Hoist.insert r.2 page)) hrun
  rw [hstyles, Flow.hoisted]
  by_cases hnone : f.sheets = []
  · rw [if_pos hnone, hnone, withoutSheets_eq_self hnone]
    rfl
  · have hsome : f.sheets.reverse.isEmpty = false := by simpa using hnone
    rw [if_neg hnone, hsome, if_neg Bool.false_ne_true]
    exact congrArg Except.ok
      (hf.isCut.withoutSheets.insert_source (h.head hnone).withoutSheets f.sheets.reverse)

end Flow

end Html

open Flow

/-- **Hoisting moves the style sheets and nothing else.** The style sheets of a page are put into
one, and every comment stays as it is, as long as no comment and no script holds what looks like a
style sheet, like the end of the head, or like a custom element that closes itself. -/
theorem Hoist.styles_source {f : Flow} (hf : f.IsReadable) (h : f.IsHoistable) :
    styles f.source = .ok f.hoisted.source ∧ f.hoisted.comments = f.comments ∧
      f.hoisted.sheets = if f.sheets = [] then [] else [join ['\n'] f.sheets.reverse] :=
  ⟨hf.styles_eq_hoisted h, comments_hoisted f, sheets_hoisted f⟩

/-- A page with two style sheets, and a comment with dashes and with the tags of one. -/
def remarkedPage : Flow :=
  .chunk [] (.opening (.bare headName)) <|
  .chunk [] (.comment " </style> -- and <style> ".text) <|
  .chunk [] (.ofSheet "a".text) <|
  .chunk [] (.closing headName) <|
  .chunk "x".text (.ofSheet "b".text) <|
  .text []

theorem Hoist.styles_source_remarkedPage :
    remarkedPage.IsReadable ∧ remarkedPage.IsHoistable ∧
      styles "<head><!-- </style> -- and <style> --><style>a</style></head>x<style>b</style>".text
        = .ok "<head><!-- </style> -- and <style> --><style>b\na</style></head>x".text := by
  have hreadable : remarkedPage.IsReadable := by decide
  have hhoistable : remarkedPage.IsHoistable := by decide
  have hsource : remarkedPage.source
      = "<head><!-- </style> -- and <style> --><style>a</style></head>x<style>b</style>".text := by
    decide
  have hhoisted : remarkedPage.hoisted.source
      = "<head><!-- </style> -- and <style> --><style>b\na</style></head>x".text := by decide
  rw [← hsource, ← hhoisted]
  exact ⟨hreadable, hhoistable, (styles_source hreadable hhoistable).1⟩

/-- A page with a style sheet, and another one in a comment. -/
def mutedPage : Flow :=
  .chunk [] (.comment "<style>a</style>".text) <|
  .chunk [] (.ofSheet "b".text) <|
  .text []

/-- The style sheet in the comment is hoisted, and the comment is left empty. -/
theorem Hoist.styles_mutedPage :
    mutedPage.source = "<!--<style>a</style>--><style>b</style>".text ∧
      mutedPage.comments = ["<style>a</style>".text] ∧ mutedPage.sheets = ["b".text] ∧
      styles mutedPage.source = .ok "<!----><style>a\nb</style>".text ∧
      styles mutedPage.source ≠ .ok mutedPage.hoisted.source := by
  decide +kernel

end Stencil
