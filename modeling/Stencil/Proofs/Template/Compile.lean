import Stencil.Compiler
import Stencil.Proofs.Template.Slots
import Stencil.Proofs.Template.Wrapper

set_option autoImplicit false

/-! # Compiling a template expands it

Compiling works on texts, level by level: it fills the slots, replaces the imports by what the
next level makes of their fragments, and takes out the wrappers. On templates, each level ends
in the source of the expansion, or in a failure when a chain of imports is as long as the
number of levels.
-/

namespace Stencil

open Text Html Vocabulary

/-! ## Stores of documents -/

/-- Whether every text of a store is the source of a document of some kind. -/
def Store.Holds (store : Store) (p : Document → Prop) : Prop :=
  ∀ entry ∈ store.fragments, ∃ d, p d ∧ d.source = entry.2

theorem Store.Holds.exists_fragment {store : Store} {p : Document → Prop} (h : store.Holds p)
    (hp : p (.text [])) (t : OpenTag) : ∃ d, p d ∧ d.source = fragmentText store t := by
  rw [fragmentText]
  cases hget : store.html? ((t.attr? "src".text).getD []) with
  | none => exact ⟨.text [], hp, rfl⟩
  | some s =>
      obtain ⟨l, r, hl, -⟩ := List.lookup_eq_some_iff.1 hget
      exact h _ (hl ▸ List.mem_append_right l List.mem_cons_self)

namespace Html

/-- A document, put inside a wrapper or not. -/
def Document.frame (framed : Bool) (d : Document) : Document :=
  if framed then d.inside wrapperOpen else d

/-- An element that begins a chain of imports. -/
def ChainFrom (store : Store) (x : OpenTag × Document) (n : Nat) : Prop :=
  ∃ body : Document, body.WellFormed ∧ body.source = fragmentText store x.1 ∧
    ImportChain store (body.fill x.2.supply) n

theorem importChain_succ_iff {store : Store} {d : Document} {n : Nat} :
    ImportChain store d (n + 1)
      ↔ ∃ x ∈ d.elements, x.1.name = importTag ∧ ChainFrom store x n := by
  constructor
  · intro h
    cases h with
    | step hmem hn hwf hbody h => exact ⟨_, hmem, hn, _, hwf, hbody, h⟩
  · rintro ⟨x, hmem, hn, body, hwf, hbody, h⟩
    exact .step hmem hn hwf hbody h

/-- A document in which only wrappers are left to take out. -/
structure Document.IsExpanded (d : Document) : Prop where
  wellFormed : d.WellFormed
  tags : ∀ x ∈ d.elements, x.1.IsOrdinary ∨ x.1 = wrapperOpen

/-- Without imports, a document is its own expansion. -/
theorem expands_of_lacks (store : Store) {d : Document} (h : d.Lacks importTag) :
    Expands store d d := by
  induction d with
  | text s => exact .text s
  | element before tag content rest ihc ihr =>
      exact .element (h (tag, content) (by simp)) (ihc fun x hx => h x (by simp [hx]))
        (ihr fun x hx => h x (by simp [hx]))

namespace Document

theorem IsFilled.isFinal {d : Document} (h : d.IsFilled) (hi : d.Lacks importTag) : d.IsFinal :=
  ⟨h.wellFormed, fun x hx => ⟨h.rawless x hx, hi x hx, h.slotless x hx,
    lacks_templates hi h.placed x hx, h.unwrapped x hx⟩⟩

theorem IsFinal.isExpanded {d : Document} (h : d.IsFinal) : d.IsExpanded :=
  ⟨h.wellFormed, fun x hx => Or.inl (h.ordinary x hx)⟩

theorem IsExpanded.frame {d : Document} (h : d.IsExpanded) (framed : Bool) :
    (d.frame framed).IsExpanded := by
  cases framed with
  | false => exact h
  | true =>
      refine ⟨h.wellFormed.inside wellFormed_wrapperOpen (by decide), ?_⟩
      intro x hx
      simp only [Document.frame, if_true, inside, elements_element, elements_text, List.append_nil,
        List.mem_cons] at hx
      rcases hx with rfl | hx
      exacts [Or.inr rfl, h.tags x hx]

theorem cleared_frame (d : Document) (framed : Bool) : (d.frame framed).cleared = d.cleared := by
  cases framed with
  | false => rfl
  | true => exact cleared_inside d

theorem IsFinal.cleared {d : Document} (h : d.IsFinal) : d.cleared = d :=
  cleared_of_unwrapped fun x hx => (h.ordinary x hx).unwrapped

theorem IsExpanded.clear_source {d : Document} (h : d.IsExpanded) :
    Wrapper.clear d.source = .ok d.cleared.source := by
  refine h.wellFormed.clear_source fun x hx hw => ?_
  rcases h.tags x hx with ht | ht
  · exact ht.not_raw
  · rw [ht]
    decide

theorem IsExpanded.quiet {d : Document} (h : d.IsExpanded) : Quiet (.ofName importTag) d.source := by
  refine h.wellFormed.quiet (h.wellFormed.untouched_of_lacks (by decide) fun x hx => ?_)
  rcases h.tags x hx with ht | ht
  · exact ht.not_import
  · rw [ht]
    decide

/-! ## One level -/

/-- What an import may be replaced by: its expansion, up to wrappers; no chain of imports that
begins in it has the given length. -/
def IsReplacement (store : Store) (levels : Nat) (x : OpenTag × Document) (t : Text) : Prop :=
  ∃ mid out body : Document, t = mid.source ∧ mid.IsExpanded ∧ mid.cleared = out ∧ out.IsFinal ∧
    body.WellFormed ∧ body.source = fragmentText store x.1 ∧
    Expands store (body.fill x.2.supply) out ∧ ¬ ChainFrom store x levels

/-- What a document may become: its expansion, up to wrappers; no chain of imports in it is longer
than the given length. -/
def IsOutcome (store : Store) (levels : Nat) (d : Document) (t : Text) : Prop :=
  ∃ mid out : Document, t = mid.source ∧ mid.IsExpanded ∧ mid.cleared = out ∧ out.IsFinal ∧
    Expands store d out ∧ ¬ ImportChain store d (levels + 1)

section

variable {store : Store} {levels : Nat} {before : Text} {tag : OpenTag} {content rest : Document}
  {t r : Text}

/-- An import gives way to its expansion. -/
theorem IsReplacement.isOutcome (h : IsReplacement store levels (tag, content) t)
    (hb : IsRunning before) (hn : tag.name = importTag) (hcontent : content.Lacks importTag)
    (hr : IsOutcome store levels rest r) :
    IsOutcome store levels (.element before tag content rest) (before ++ t ++ r) := by
  obtain ⟨mid, out, body, rfl, hmid, hclear, hout, hbody, hsource, hexp, hchain⟩ := h
  obtain ⟨mid', out', rfl, hmid', hclear', hout', hexp', hchain'⟩ := hr
  refine ⟨.text before ++ mid ++ mid', .text before ++ out ++ out', ?_, ?_, ?_, ?_, ?_, ?_⟩
  · simp
  · refine ⟨(hmid.wellFormed.prepend hb).append hmid'.wellFormed, fun x hx => ?_⟩
    simp only [text_append, elements_append, elements_prepend, List.mem_append] at hx
    rcases hx with hx | hx
    exacts [hmid.tags x hx, hmid'.tags x hx]
  · rw [cleared_append, cleared_append, hclear, hclear', cleared_text]
  · refine ⟨(hout.wellFormed.prepend hb).append hout'.wellFormed, fun x hx => ?_⟩
    simp only [text_append, elements_append, elements_prepend, List.mem_append] at hx
    rcases hx with hx | hx
    exacts [hout.ordinary x hx, hout'.ordinary x hx]
  · exact .fragment hn hbody hsource hexp hexp'
  · rw [importChain_succ_iff] at hchain' ⊢
    rintro ⟨x, hx, hxn, hc⟩
    simp only [elements_element, List.mem_cons, List.mem_append] at hx
    rcases hx with rfl | hx | hx
    exacts [hchain hc, hcontent x hx hxn, hchain' ⟨x, hx, hxn, hc⟩]

/-- Any other element stays, around what its content becomes. -/
theorem IsOutcome.element (h : IsOutcome store levels content t) (hb : IsRunning before)
    (ht : tag.WellFormed) (hord : tag.IsOrdinary) (hr : IsOutcome store levels rest r) :
    IsOutcome store levels (.element before tag content rest)
      (before ++ tag.source ++ t ++ endTagText tag.name ++ r) := by
  obtain ⟨mid, out, rfl, hmid, hclear, hout, hexp, hchain⟩ := h
  obtain ⟨mid', out', rfl, hmid', hclear', hout', hexp', hchain'⟩ := hr
  refine ⟨.element before tag mid mid', .element before tag out out', rfl, ?_, ?_, ?_, ?_, ?_⟩
  · refine ⟨.element hb ht hord.not_raw hmid.wellFormed hmid'.wellFormed, fun x hx => ?_⟩
    simp only [elements_element, List.mem_cons, List.mem_append] at hx
    rcases hx with rfl | hx | hx
    exacts [Or.inl hord, hmid.tags x hx, hmid'.tags x hx]
  · rw [cleared, retag, unwrapTag_of_unwrapped hord.unwrapped, ← hclear, ← hclear']
    rfl
  · refine ⟨.element hb ht hord.not_raw hout.wellFormed hout'.wellFormed, fun x hx => ?_⟩
    simp only [elements_element, List.mem_cons, List.mem_append] at hx
    rcases hx with rfl | hx | hx
    exacts [hord, hout.ordinary x hx, hout'.ordinary x hx]
  · exact .element hord.not_import hexp hexp'
  · rw [importChain_succ_iff] at hchain hchain' ⊢
    rintro ⟨x, hx, hxn, hc⟩
    simp only [elements_element, List.mem_cons, List.mem_append] at hx
    rcases hx with rfl | hx | hx
    exacts [hord.not_import hxn, hchain ⟨x, hx, hxn, hc⟩, hchain' ⟨x, hx, hxn, hc⟩]

end

/-- When every import is replaced by its expansion, the document is expanded. -/
theorem ends_splice {store : Store} {levels : Nat} {f : OpenTag → Document → Work Text}
    {E : Failure → Prop} {d : Document} (hwf : d.WellFormed) (hs : d.Rawless)
    (hu : ∀ x ∈ d.elements, x.1.table.has wrapperAttr = false) (hslot : d.Lacks slotTag)
    (hp : d.templatesPlaced false = true)
    (hi : ∀ x ∈ d.elements, x.1.name = importTag → x.2.Lacks importTag)
    (hf : ∀ x ∈ d.elements, x.1.name = importTag → ∀ s,
      (f x.1 x.2).Ends s (fun t _ => IsReplacement store levels x t) E) (s : Session) :
    (d.splice (.ofName importTag) f).Ends s (fun t _ => IsOutcome store levels d t) E := by
  induction d generalizing s with
  | text u =>
      refine Work.ends_pure ⟨.text u, .text u, rfl, ⟨hwf, by simp⟩, rfl, ⟨hwf, by simp⟩, .text u, ?_⟩
      rw [importChain_succ_iff]
      simp
  | element before tag content rest ihc ihr =>
      have hrest := ihr hwf.rest (fun x hx => hs x (by simp [hx])) (fun x hx => hu x (by simp [hx]))
        (fun x hx => hslot x (by simp [hx])) (by simp_all [templatesPlaced])
        (fun x hx => hi x (by simp [hx])) fun x hx => hf x (by simp [hx])
      have hmem : (tag, content) ∈ (element before tag content rest).elements := by simp
      rw [splice, hwf.tag.selectedBy_ofName (by decide)]
      by_cases hn : tag.name = importTag
      · rw [decide_eq_true hn, if_pos rfl]
        refine (hf _ hmem hn s).bind fun v s₁ hv => ?_
        refine (hrest s₁).bind fun r s₂ hr => Work.ends_pure ?_
        exact hv.isOutcome hwf.before hn (hi _ hmem hn) hr
      · -- a template stands at the top of the content of an import, so this is none
        have hplaced := hp
        rw [templatesPlaced, Bool.and_eq_true] at hplaced
        have hnt : tag.name ≠ templateTag := by
          intro hnt
          rw [if_pos hnt] at hplaced
          simp at hplaced
        rw [if_neg hnt, decide_eq_false hn] at hplaced
        have hcontent := ihc (hwf.content_of_ne (hs _ hmem)) (fun x hx => hs x (by simp [hx]))
          (fun x hx => hu x (by simp [hx])) (fun x hx => hslot x (by simp [hx])) hplaced.1
          (fun x hx => hi x (by simp [hx])) fun x hx => hf x (by simp [hx])
        have hord : tag.IsOrdinary := ⟨hs _ hmem, hn, hslot _ hmem, hnt, hu _ hmem⟩
        rw [decide_eq_false hn, if_neg (by decide)]
        refine (hcontent s).bind fun v s₁ hv => (hrest s₁).bind fun r s₂ hr => Work.ends_pure ?_
        exact hv.element hwf.before hwf.tag hord hr

/-! ## Frames -/

theorem source_frame (d : Document) (framed : Bool) :
    (d.frame framed).source = if framed then Wrapper.around d.source else d.source := by
  cases framed with
  | false => rfl
  | true => exact source_inside_wrapperOpen d

theorem fill_frame (supply : Text → Option Document) (d : Document) (framed : Bool) :
    (d.frame framed).fill supply = (d.fill supply).frame framed := by
  cases framed with
  | false => rfl
  | true =>
      show (d.inside wrapperOpen).fill supply = (d.fill supply).inside wrapperOpen
      rw [inside, fill, if_neg (by decide)]
      rfl

theorem mem_elements_frame {d : Document} {framed : Bool} {x : OpenTag × Document}
    (hx : x ∈ (d.frame framed).elements) : x = (wrapperOpen, d) ∨ x ∈ d.elements := by
  cases framed with
  | false => exact Or.inr hx
  | true => simpa [Document.frame, inside] using hx

theorem mem_frame_of_mem {d : Document} {x : OpenTag × Document} (framed : Bool)
    (hx : x ∈ d.elements) : x ∈ (d.frame framed).elements := by
  cases framed with
  | false => exact hx
  | true => simp [Document.frame, inside, hx]

theorem WellFormed.frame {d : Document} (h : d.WellFormed) (framed : Bool) :
    (d.frame framed).WellFormed := by
  cases framed with
  | false => exact h
  | true => exact h.inside wellFormed_wrapperOpen (by decide)

theorem lacks_frame {d : Document} {name : Text} (h : d.Lacks name) (hn : wrapperOpen.name ≠ name)
    (framed : Bool) : (d.frame framed).Lacks name := by
  intro x hx
  rcases mem_elements_frame hx with rfl | hx
  exacts [hn, h x hx]

theorem rawless_frame {d : Document} (h : d.Rawless) (framed : Bool) : (d.frame framed).Rawless :=
  rawless_iff.2 fun name hname => lacks_frame (rawless_iff.1 h name hname)
    ((by decide : ∀ n ∈ RawText.names, wrapperOpen.name ≠ n) name hname) framed

/-- The wrapper around a document is passed over. -/
theorem splice_frame {f : OpenTag → Document → Work Text} (d : Document) (framed : Bool) :
    (d.frame framed).splice (.ofName importTag) f
      = d.splice (.ofName importTag) f >>= fun t =>
          pure (if framed then Wrapper.around t else t) := by
  cases framed with
  | false => exact (bind_pure _).symm
  | true =>
      have hw : wrapperOpen.selectedBy (.ofName importTag) = false := by decide
      have hstart : wrapperOpen.source = startTagText "div".text [(wrapperAttr, [])] := by decide
      show (d.inside wrapperOpen).splice _ _ = _
      rw [inside, splice, hw, if_neg (by decide), splice]
      simp only [pure_bind, Wrapper.around, if_true, List.nil_append, List.append_nil, hstart]
      rfl

end Document
end Html

namespace Compiler

variable {c : Compiler}

/-- A text with an import element in it is seen to hold one. -/
theorem lacks_of_holdsImport {d : Document} (h : holdsImport d.source = false) :
    d.Lacks importTag := Document.lacks_of_contains_eq_false h

theorem holds_ifEmpty {slots : Slots} {supply : Text → Option Document} (h : slots.Holds supply) :
    (if slots.isEmpty then Slots.none else slots).Holds supply := by
  split
  · rename_i hempty
    rw [List.isEmpty_iff] at hempty
    intro n
    rw [Slots.holds_none n, ← h n, hempty]
    rfl
  · exact h

theorem fragment_matchAt {t : OpenTag} (h : t.attr? "as".text ≠ some "markdown".text)
    (p : Position) (content : Document) :
    c.fragment (t.matchAt p content) = .ok (fragmentText c.store t) := by
  rw [fragment]
  exact if_neg h

/-- How a level of a compiler ends on a document, put inside a wrapper or not: in its expansion,
or in a failure when a chain of imports is as long as the number of levels. -/
def Expanding (c : Compiler) (levels : Nat) : Prop :=
  ∀ {slots : Slots} {supply : Text → Option Document}, slots.Holds supply →
    (∀ n e, supply n = some e → e.IsFinal) → ∀ {d : Document}, d.IsTemplate →
    ∀ (framed : Bool) (s : Session),
    (c.template levels slots .empty (d.frame framed).source).Ends s
      (fun t _ => ∃ (out : Document) (framed' : Bool), t = (out.frame framed').source ∧
        (framed' = true → framed = true) ∧ out.IsFinal ∧
        Expands c.store (d.fill supply) out ∧ ¬ ImportChain c.store (d.fill supply) levels)
      (fun e => e = .tooDeep c.maxDepth ∧ ImportChain c.store (d.fill supply) levels)

/-- An import is replaced by its expansion when the next level expands. -/
theorem expandImport_ends (hstore : c.store.Holds Document.IsTemplate) {levels : Nat}
    (ih : c.Expanding levels) {d : Document} (hd : d.IsFilled) {x : OpenTag × Document}
    (hx : x ∈ d.elements) (hn : x.1.name = importTag) (p : Position) (s : Session) :
    (c.expandImport (c.template levels) .empty (x.1.matchAt p x.2)).Ends s
      (fun t _ => Document.IsReplacement c.store levels x t)
      (fun e => e = .tooDeep c.maxDepth ∧ ImportChain c.store d (levels + 1)) := by
  obtain ⟨body, hbody, hsource⟩ := hstore.exists_fragment (by decide) x.1
  have hcontent := hd.importContent hx hn
  obtain ⟨slots, hslots, hholds⟩ := Slots.holds_ofContent hcontent
  have hcall : c.expandImport (c.template levels) .empty (x.1.matchAt p x.2)
      = c.template levels slots .empty (body.frame true).source := by
    rw [expandImport, fragment_matchAt (hd.html x hx hn), Work.lift_ok_bind, ← hsource]
    show (liftM (Slots.ofContent x.2.source) >>= _ : Work Text) = _
    rw [hslots, Work.lift_ok_bind,
      Scope.scopeStylesOf_source hbody.wellFormed hbody.rawless hbody.unwrapped, pure_bind,
      Document.source_frame]
    rfl
  rw [hcall]
  refine (ih hholds (fun n e => hcontent.isFinal_supply) hbody true s).mono ?_ ?_
  · rintro t s' ⟨out, framed, rfl, -, hout, hexp, hchain⟩
    refine ⟨out.frame framed, out, body, rfl, hout.isExpanded.frame framed, ?_, hout,
      hbody.wellFormed, hsource, hexp, ?_⟩
    · rw [Document.cleared_frame, hout.cleared]
    · rintro ⟨body', hwf, hsource', hc⟩
      obtain ⟨rfl, -⟩ := hbody.wellFormed.source_inj hwf endsContent_nil endsContent_nil
        (by rw [hsource, hsource'])
      exact hchain hc
  · rintro e ⟨he, hc⟩
    exact ⟨he, importChain_succ_iff.2 ⟨x, hx, hn, body, hbody.wellFormed, hsource, hc⟩⟩

/-- Replacing the imports of a document whose slots are filled. -/
theorem expandImports_source (hstore : c.store.Holds Document.IsTemplate) {levels : Nat}
    (ih : c.Expanding levels) {d : Document} (hd : d.IsFilled) (framed : Bool) :
    c.expandImports (c.template levels) .empty (d.frame framed).source
      = d.splice (.ofName importTag) (fun t content =>
          c.expandImport (c.template levels) .empty (t.matchAt .origin content)) >>= fun t =>
          pure (if framed then Wrapper.around t else t) := by
  have hwf := hd.wellFormed.frame framed
  have hmem : ∀ x ∈ (d.frame framed).elements, x.1.selectedBy (.ofName importTag) = true →
      x ∈ d.elements ∧ x.1.name = importTag := by
    intro x hx hsel
    have hn := hwf.name_of_selected (by decide) hx hsel
    rcases Document.mem_elements_frame hx with rfl | hx
    exacts [absurd hn (show wrapperOpen.name ≠ importTag by decide), ⟨hx, hn⟩]
  have key : replaceMatches (c.expandImport (c.template levels) .empty) .outer (.ofName importTag)
        none (d.frame framed).source
      = ExceptT.lift ((d.frame framed).splice (.ofName importTag) fun t content =>
          c.expandImport (c.template levels) .empty (t.matchAt .origin content)) :=
    hwf.replaceMatches_splice ?_ (fun _ _ _ _ => rfl) ?_
  · rw [expandImports, key, Work.orFail_lift, Document.splice_frame]
  · intro x hx hsel
    obtain ⟨hx, hn⟩ := hmem x hx hsel
    exact (hd.wellFormed.content_of_mem hd.rawless x hx).untouched_of_lacks (by decide)
      (hd.imports x hx hn)
  · intro x hx hsel
    obtain ⟨hx, hn⟩ := hmem x hx hsel
    refine Work.gives_of_ends fun s =>
      (expandImport_ends hstore ih hd hx hn .origin s).mono ?_ fun _ _ => trivial
    rintro t s' ⟨mid, out, body, rfl, hmid, -⟩
    exact hmid.quiet

/-- Every level of the compiler expands its template. -/
theorem expanding (hstore : c.store.Holds Document.IsTemplate) (levels : Nat) :
    c.Expanding levels := by
  induction levels with
  | zero =>
      intro slots supply _ _ d _ framed s
      exact Work.ends_throw ⟨rfl, .stop _⟩
  | succ levels ih =>
      intro slots supply hslots hsupply d hd framed s
      have he := Document.IsTemplate.fill hsupply hd
      have hwf := hd.wellFormed.frame framed
      have hfilled : (if slots.isEmpty then Slots.none else slots).fillAll
            (expandSelfClosing (d.frame framed).source)
          = .ok ((d.fill supply).frame framed).source := by
        rw [hwf.expandSelfClosing_source, Slots.fillAll_source (holds_ifEmpty hslots)
          (fun n e he => ⟨(hsupply n e he).wellFormed, fun x hx =>
            ((hsupply n e he).ordinary x hx).not_slot⟩)
          ⟨hwf, Document.rawless_frame hd.rawless framed⟩
          (Document.keepsApart_of_isFlat ?_ _).clears, Document.fill_frame]
        intro x hx hsel
        have hn := hwf.name_of_selected (by decide) hx hsel
        rcases Document.mem_elements_frame hx with rfl | hx
        · exact absurd hn (show wrapperOpen.name ≠ slotTag by decide)
        · exact (hd.wellFormed.content_of_mem hd.rawless x hx).untouched_of_lacks (by decide)
            (hd.slots x hx hn)
      simp only [template, hfilled, Work.lift_ok_bind]
      cases hi : holdsImport ((d.fill supply).frame framed).source with
      | true =>
          rw [if_pos rfl, expandImports_source hstore ih he, bind_assoc]
          refine (Document.ends_splice he.wellFormed he.rawless he.unwrapped he.slotless he.placed
            he.imports (fun x hx hn s => expandImport_ends hstore ih he hx hn .origin s) s).bind ?_
          rintro t s' ⟨mid, out, rfl, hmid, hclear, hout, hexp, hchain⟩
          rw [pure_bind, ← Document.source_frame, (hmid.frame framed).clear_source,
            Document.cleared_frame, hclear]
          exact Work.ends_pure ⟨out, false, rfl, by simp, hout, hexp, hchain⟩
      | false =>
          -- without imports, the filled template is its own expansion
          have hnone : (d.fill supply).Lacks importTag := fun x hx =>
            lacks_of_holdsImport hi x (Document.mem_frame_of_mem framed hx)
          rw [if_neg (by decide)]
          refine Work.ends_pure ⟨d.fill supply, framed, rfl, id, he.isFinal hnone,
            expands_of_lacks c.store hnone, ?_⟩
          rw [importChain_succ_iff]
          rintro ⟨x, hx, hn, -⟩
          exact hnone x hx hn

end Compiler
end Stencil
