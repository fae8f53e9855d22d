import Mathlib.Data.List.Forall2
import Stencil.Proofs.Flow.Reading

set_option autoImplicit false

/-! # Replacing start tags in a flow

Each start tag that a selector takes is replaced at the first place where its text still stands.
That is its own place when no hidden text holds a copy of it: the tags in front that look alike
have been replaced before, by tags that are replaced by themselves.
-/

namespace Stencil.Html

open Text

/-! ## The matches of a flow -/

/-- Whether a match is that of the element which a chunk opens: its tag and its start tag are
those of the chunk, and a style sheet has its own content and end tag. -/
structure Chunk.IsMatch (c : Chunk) (m : Match) : Prop where
  start : ∃ t, c.tag? = some t ∧ m.tag = t.tagAt m.tag.position ∧ m.start = t.source
  sheet : ∀ t s, c = .raw t s → t.name = sheetName → m.inner = s ∧ m.close = endTagText t.name

/-- In front of the source of a start tag there is a region that begins with it. -/
theorem exists_region {t : OpenTag} (ht : t.IsWritten) (name r : Text) :
    ∃ region, region? name (t.source ++ r) = some region ∧ region.start = t.source := by
  rw [region?, startText?_source ht.isDelimited, Option.map_some]
  refine ⟨_, rfl, ?_⟩
  dsimp only
  split
  · rfl
  · split
    · split <;> rfl
    · split <;> rfl

theorem Chunk.IsReadable.wellFormed_sheet {t : OpenTag} {s : Text}
    (h : (Chunk.raw t s).IsReadable) (hn : t.name = sheetName) : t.WellFormed ∧ char '<' ∉ s := by
  obtain ⟨ht, hopen, -, -, hcss⟩ := h
  obtain ⟨g, hg, htail⟩ := ht.exists_gap
  rw [hopen, if_neg (by decide), List.append_nil] at htail
  exact ⟨⟨ht.name, hn ▸ by decide, ht.attrs, htail ▸ hg⟩, hcss hn⟩

/-- The match of an element is that of the chunk at its position. -/
theorem Chunk.IsReadable.isMatch_ofElement {c : Chunk} (h : c.IsReadable) {t : OpenTag}
    (ht : c.tag? = some t) {pre post : Text} {e : Element}
    (he : e.tag = t.tagAt (Position.origin.advance pre)) :
    c.IsMatch (Match.ofElement (pre ++ (c.source ++ post)) (lineStarts (pre ++ (c.source ++ post))) e) := by
  have hoffset : e.tag.position.offset? (lineStarts (pre ++ (c.source ++ post))) = some pre.length := by
    rw [he]
    exact offset?_advance pre _
  have hname : e.tag.name = t.name := by rw [he]; rfl
  have htag : e.tag = t.tagAt e.tag.position := by rw [he]; rfl
  obtain ⟨r, hr⟩ : ∃ r, c.source ++ post = t.source ++ r :=
    ⟨c.hidden ++ post, by rw [source_of_tag? ht, List.append_assoc]⟩
  obtain ⟨region, hregion, hstart⟩ := exists_region (h.tag ht) t.name r
  have hmatch : Match.ofElement (pre ++ (c.source ++ post)) (lineStarts (pre ++ (c.source ++ post))) e
      = ⟨e.tag, region.start, region.inner, region.close⟩ := by
    apply ofElement_of_match?
    rw [Tag.match?, hoffset, Option.bind_some, List.drop_left, hr, hname, hregion]
    rfl
  rw [hmatch]
  refine ⟨⟨t, ht, htag, hstart⟩, ?_⟩
  rintro u s rfl hsheet
  obtain rfl := Option.some.inj ht
  obtain ⟨hu, hcss⟩ := h.wellFormed_sheet hsheet
  have hraw := region?_raw hu (hsheet ▸ by decide) hcss post
  have hsource : (Chunk.raw u s).source ++ post = u.source ++ (s ++ endTagText u.name ++ post) := by
    simp [source]
  rw [hsource] at hr
  obtain rfl := List.append_cancel_left hr
  obtain rfl := Option.some.inj (hraw.symm.trans hregion)
  exact ⟨rfl, rfl⟩

theorem Flow.IsReadable.forall₂_isMatch {f : Flow} (h : f.IsReadable) (pre : Text) {es : List Element}
    (hes : es.map Element.tag = f.tagsFrom (Position.origin.advance pre)) :
    List.Forall₂ (fun c e => c.IsMatch (Match.ofElement (pre ++ f.source)
        (lineStarts (pre ++ f.source)) e))
      (f.chunks.filter (·.tag?.isSome)) es := by
  induction f generalizing pre es with
  | text s =>
      obtain rfl := List.map_eq_nil_iff.1 hes
      exact .nil
  | chunk before c rest ih =>
      obtain ⟨-, hc, hrest⟩ := h
      have hsource : pre ++ (Flow.chunk before c rest).source
          = pre ++ (before ++ c.source) ++ rest.source := by simp [Flow.source]
      have hhere : pre ++ (Flow.chunk before c rest).source
          = pre ++ before ++ (c.source ++ rest.source) := by simp [Flow.source]
      rw [Flow.tagsFrom, ← Position.advance_append, ← Position.advance_append] at hes
      rw [Flow.chunks]
      cases htag : c.tag? with
      | none =>
          rw [htag] at hes
          rw [List.filter_cons_of_neg (by simp [htag]), hsource]
          exact ih hrest _ hes
      | some t =>
          rw [htag] at hes
          obtain ⟨e, es, rfl, he, hes⟩ := List.map_eq_cons_iff.1 hes
          rw [List.filter_cons_of_pos (by simp [htag])]
          refine .cons ?_ ?_
          · rw [hhere]
            exact hc.isMatch_ofElement htag he
          · rw [hsource]
            exact ih hrest _ hes

theorem forall₂_takeUpTo {α β : Type} {R : α → β → Prop} {as : List α} {bs : List β}
    (limit : Option Int) (h : List.Forall₂ R as bs) :
    List.Forall₂ R (takeUpTo limit as) (takeUpTo limit bs) := by
  unfold takeUpTo
  split
  · exact h
  · exact List.forall₂_take _ h
  · rw [h.length_eq]
    exact List.forall₂_take _ h

/-- The matches in the source of a flow are those of its own elements, in order. -/
theorem Flow.IsReadable.matchesIn_source {f : Flow} (h : f.IsReadable) (sel : Selector)
    (limit : Option Int) : ∃ ms, matchesIn f.source sel limit = .ok ms ∧
      List.Forall₂ Chunk.IsMatch (takeUpTo limit (f.chunks.filter (·.selectedBy sel))) ms := by
  obtain ⟨nodes, hnodes, htags⟩ := h.ofSource
  have htags' : (elementsOf nodes).map Element.tag = f.tagsFrom .origin := htags
  have hall := h.forall₂_isMatch [] htags'
  rw [List.nil_append] at hall
  have hselects : Relator.LiftFun (fun c e => Chunk.IsMatch c (Match.ofElement f.source
      (lineStarts f.source) e)) (fun x1 x2 => x1 ↔ x2) (fun c => c.selectedBy sel = true)
      (fun e : Element => sel.selects e.tag = true) := by
    rintro c e ⟨⟨t, ht, htag, -⟩, -⟩
    have hof : (Match.ofElement f.source (lineStarts f.source) e).tag = e.tag := by
      rw [Match.ofElement]
      split <;> rfl
    rw [hof] at htag
    show c.selectedBy sel = true ↔ sel.selects e.tag = true
    rw [Chunk.selectedBy_of_tag? sel ht, htag]
    rfl
  have hfilter := List.rel_filter (p := (·.selectedBy sel)) (q := fun e => sel.selects e.tag)
    hselects hall
  have hchunks : (f.chunks.filter (·.tag?.isSome)).filter (·.selectedBy sel)
      = f.chunks.filter (·.selectedBy sel) := by
    rw [List.filter_filter]
    refine List.filter_congr fun c _ => ?_
    cases htag : c.tag? with
    | none => simp [Chunk.selectedBy, htag]
    | some t => simp
  rw [hchunks] at hfilter
  have hmatches := forall₂_takeUpTo limit hfilter
  rw [matchesIn, hnodes]
  split
  · -- without `<` there is no chunk
    rename_i hlt
    cases f with
    | text s =>
        rw [Flow.chunks, List.filter_nil, takeUpTo_nil]
        exact ⟨[], rfl, .nil⟩
    | chunk before c rest =>
        obtain ⟨s, hs⟩ := c.exists_source_cons
        simp [Flow.source, hs] at hlt
  · exact ⟨_, rfl, List.forall₂_map_right_iff.2 hmatches⟩

/-! ## The tags in a chunk -/

/-- Start tags that are written alike open the same kind of element. -/
theorem eq_of_inside_eq {t u : OpenTag} (ht : t.IsWritten) (hu : u.IsWritten)
    (h : t.inside = u.inside) : t.name = u.name ∧ t.table = u.table := by
  have hread := (ht.read_inside []).symm.trans
    ((congrArg (fun x => StartTag.read (x ++ [char '>'])) h).trans (hu.read_inside []))
  injection hread with htag
  injection htag with hname hpairs
  exact ⟨hname, congrArg Table.ofPairs hpairs⟩

theorem selectedBy_of_inside_eq {t u : OpenTag} (ht : t.IsWritten) (hu : u.IsWritten)
    (h : t.inside = u.inside) (sel : Selector) : t.selectedBy sel = u.selectedBy sel := by
  obtain ⟨hname, htable⟩ := eq_of_inside_eq ht hu h
  rw [OpenTag.selectedBy, OpenTag.selectedBy, OpenTag.tagAt, OpenTag.tagAt, hname, htable]

/-- The tags that the hidden text of a chunk looks like. -/
theorem Chunk.everyTag_hidden {P : Text → Prop} (c : Chunk)
    (h : ∀ x, contains c.hidden ([char '<'] ++ x ++ [char '>']) = true → P x) :
    EveryTag P c.hidden := by
  have hlast : c.hidden = [] ∨ ∃ s, c.hidden = s ++ [char '>'] := by
    cases c with
    | opening t => exact Or.inl rfl
    | closing name => exact Or.inl rfl
    | comment s => exact Or.inr ⟨"<!--".text ++ s ++ "--".text, by simp [hidden]⟩
    | declaration s => exact Or.inr ⟨[char '<'] ++ s, rfl⟩
    | raw t s => exact Or.inr ⟨s ++ [char '<', char '/'] ++ t.name, by simp [hidden, endTagText]⟩
  intro a b e
  have hgt : char '>' ∈ b := by
    rcases hlast with hnil | ⟨s, hs⟩
    · simp [hnil] at e
    · rw [hs] at e
      rcases List.eq_nil_or_concat b with rfl | ⟨b', d, rfl⟩
      · exact absurd (List.append_inj' e rfl).2 (by decide)
      · rw [List.concat_eq_append, ← List.cons_append, ← List.append_assoc] at e
        obtain rfl := List.singleton_inj.1 (List.append_inj' e rfl).2
        simp
  obtain ⟨x, r, rfl, hx⟩ := List.eq_append_cons_of_mem hgt
  exact ⟨x, r, rfl, hx, h x ((contains_iff _ _).2 ⟨a, r, by simp [e]⟩)⟩

/-- The tags of a chunk are its start tag or its end tag, and those that its hidden text looks
like. -/
theorem Chunk.IsReadable.everyTag {P : Text → Prop} {c : Chunk} (h : c.IsReadable)
    (htag : ∀ t, c.tag? = some t → P t.inside)
    (hclose : ∀ name, c = .closing name → P ('/' :: name))
    (hhidden : EveryTag P c.hidden) : EveryTag P c.source := by
  cases c with
  | opening t => exact everyTag_startTag h.1 (htag t rfl)
  | closing name => exact everyTag_endTagText h (hclose name rfl)
  | comment s => exact hhidden
  | declaration s => exact hhidden
  | raw t s => exact (everyTag_startTag h.1 (htag t rfl)).append hhidden

theorem everyTag_of_isProse {P : Text → Prop} {s : Text} (h : IsProse s) : EveryTag P s :=
  everyTag_of_not_mem h.1

/-! ## Replacing every start tag that is selected -/

namespace Flow

/-- What is asked of new start tags: they are written, with the name and the slash of the old
ones; only those that a selector takes are new; and a new one that looks like an old one is that
old one, which is its own replacement. -/
structure Renews (f : Flow) (sel : Selector) (g : OpenTag → OpenTag) : Prop where
  name : ∀ t, (g t).name = t.name
  closesItself : ∀ t, (g t).closesItself = t.closesItself
  isWritten : ∀ t ∈ f.tags, (g t).IsWritten
  passed : ∀ t ∈ f.tags, t.selectedBy sel = false → g t = t
  again : ∀ t ∈ f.tags, ∀ u ∈ f.tags, u.inside = (g t).inside → g u = u

/-- Whether every start tag of a flow that is written with some inside is its own replacement. -/
def IsRenewedInside (f : Flow) (g : OpenTag → OpenTag) (x : Text) : Prop :=
  ∀ u ∈ f.tags, u.inside = x → g u = u

/-- Whether no start tag of a flow that is written with some inside is one that a selector takes. -/
def IsPassedInside (f : Flow) (sel : Selector) (x : Text) : Prop :=
  ∀ u ∈ f.tags, u.inside = x → u.selectedBy sel = false

/-- Whether a replacement puts a new start tag in the place of the old one. -/
def Renewing (fn : Match → Id Text) (g : OpenTag → OpenTag) (t : OpenTag) : Prop :=
  ∀ m : Match, m.tag = t.tagAt m.tag.position → m.start = t.source → fn m = pure (g t).source

variable {sel : Selector} {g : OpenTag → OpenTag} {fn : Match → Id Text}

/-- Every tag in a chunk of a flow is its own replacement, once the chunk has its new start
tag. -/
theorem Renews.everyTag {f : Flow} (hg : f.Renews sel g) (hf : f.WellFormed) (hhides : f.HidesNo sel)
    {c : Chunk} (hc : c ∈ f.chunks) :
    EveryTag (f.IsRenewedInside g) (c.retag g).source := by
  have hmem : ∀ {t}, c.tag? = some t → t ∈ f.tags := fun ht => mem_tags.2 ⟨c, hc, ht⟩
  have hwritten : (c.retag g).WellFormed :=
    (hf.chunk c hc).retag hg.name hg.closesItself fun t ht => hg.isWritten t (hmem ht)
  refine hwritten.isReadable.everyTag ?_ ?_ ?_
  · intro t ht u hu
    rw [Chunk.tag?_retag, Option.map_eq_some_iff] at ht
    obtain ⟨v, hv, rfl⟩ := ht
    exact hg.again v (hmem hv) u hu
  · exact fun name _ u hu e => absurd e (inside_ne_cons (hf.tag u hu) (by decide) name)
  · rw [Chunk.hidden_retag hg.name]
    refine c.everyTag_hidden fun x hx u hu e => ?_
    cases hsel : u.selectedBy sel with
    | false => exact hg.passed u hu hsel
    | true =>
        have hnone := hhides c hc u hu hsel
        rw [OpenTag.source, e, hx] at hnone
        cases hnone

/-- One start tag is replaced where it stands, if no tag in front looks like it. -/
theorem patchOne_retag {P : Text → Prop} {pre : Text} (hpre : EveryTag P pre)
    (hname : ∀ t, (g t).name = t.name) {c : Chunk} (hc : c.WellFormed) {t : OpenTag}
    (htag : c.tag? = some t) (hP : g t ≠ t → ¬ P t.inside) (hfn : Renewing fn g t) {m : Match}
    (hm : c.IsMatch m) (post : Text) :
    patchOne fn .start (pre ++ c.source ++ post) m = pure (pre ++ (c.retag g).source ++ post) := by
  obtain ⟨u, hu, hat, hstart⟩ := hm.start
  obtain rfl := Option.some.inj (htag.symm.trans hu)
  have hsource : c.source = t.source ++ c.hidden := Chunk.source_of_tag? htag
  have hsource' : (c.retag g).source = (g t).source ++ c.hidden := by
    have htag' : (c.retag g).tag? = some (g t) := by rw [Chunk.tag?_retag, htag, Option.map_some]
    rw [Chunk.source_of_tag? htag', Chunk.hidden_retag hname]
  have hvalue : fn m = pure (g t).source := hfn m hat hstart
  by_cases hsame : g t = t
  · -- a tag that is its own replacement is replaced by itself, wherever that is
    rw [hsource, hsource', hsame]
    exact patchOne_self (by rw [hvalue, hsame, Match.part, hstart])
  · have hinside : m.part .start = char '<' :: (t.inside ++ char '>' :: []) := by
      rw [Match.part, hstart]
      simp [OpenTag.source]
    have key : patchOne fn .start (pre ++ m.part .start ++ (c.hidden ++ post)) m
        = fn m >>= fun v => pure (pre ++ v ++ (c.hidden ++ post)) :=
      patchOne_of_everyTag hpre (hc.tag htag).gt_not_mem (hP hsame) hinside
    rw [hvalue, pure_bind, Match.part, hstart] at key
    rw [hsource, hsource']
    simpa using key

/-- The start tags of the last part of a flow are replaced one after the other. -/
theorem WellFormed.patch_retag {f rest : Flow} (hf : f.WellFormed)
    (hrest : ∀ c ∈ rest.chunks, c ∈ f.chunks) (hprose : rest.WellFormed) (hg : f.Renews sel g)
    (hhides : f.HidesNo sel) (hfn : ∀ t ∈ f.tags, t.selectedBy sel = true → Renewing fn g t)
    {pre : Text} (hpre : EveryTag (f.IsRenewedInside g) pre)
    {ms : List Match} (hms : List.Forall₂ Chunk.IsMatch (rest.chunks.filter (·.selectedBy sel)) ms) :
    patch fn .start (pre ++ rest.source) ms = pure (pre ++ (rest.retag g).source) := by
  induction rest generalizing pre ms with
  | text s =>
      obtain rfl := List.forall₂_nil_left_iff.1 hms
      rfl
  | chunk before c rest ih =>
      have hc : c ∈ f.chunks := hrest c List.mem_cons_self
      have hbefore := hpre.append (everyTag_of_isProse hprose.1)
      have hmore := fun ms => @ih (fun d hd => hrest d (List.mem_cons_of_mem c hd)) hprose.2.2 _
        (hbefore.append (hg.everyTag hf hhides hc)) ms
      have hsource : pre ++ (Flow.chunk before c rest).source
          = pre ++ before ++ c.source ++ rest.source := by simp [Flow.source]
      have htarget : pre ++ ((Flow.chunk before c rest).retag g).source
          = pre ++ before ++ (c.retag g).source ++ (rest.retag g).source := by
        simp [Flow.source, Flow.retag]
      rw [hsource, htarget]
      rw [chunks, List.filter_cons] at hms
      split at hms
      · rename_i hsel
        obtain ⟨m, ms, hm, hlater, rfl⟩ := List.forall₂_cons_left_iff.1 hms
        obtain ⟨t, ht, htsel⟩ := Chunk.exists_of_selectedBy hsel
        have hmem : t ∈ f.tags := mem_tags.2 ⟨c, hc, ht⟩
        have hnot : g t ≠ t → ¬ f.IsRenewedInside g t.inside :=
          fun hne h => hne (h t hmem rfl)
        rw [patch_cons, patchOne_retag hbefore hg.name (hf.chunk c hc) ht hnot (hfn t hmem htsel) hm,
          pure_bind]
        exact hmore ms hlater
      · rename_i hsel
        have hkept : c.retag g = c := Chunk.retag_eq_self fun t ht =>
          hg.passed t (mem_tags.2 ⟨c, hc, ht⟩)
            (Chunk.selectedBy_of_tag? sel ht ▸ Bool.not_eq_true _ ▸ hsel)
        rw [hkept] at hmore ⊢
        exact hmore ms hms

/-- Replacing the start tags of all elements that a selector takes. -/
theorem WellFormed.replaceMatches_retag {f : Flow} (hf : f.WellFormed) (hg : f.Renews sel g)
    (hhides : f.HidesNo sel) (hfn : ∀ t ∈ f.tags, t.selectedBy sel = true → Renewing fn g t) :
    replaceMatches fn .start sel none f.source = pure (f.retag g).source := by
  obtain ⟨ms, hms, hmatches⟩ := hf.isReadable.matchesIn_source sel none
  have key := hf.patch_retag (fun c hc => hc) hf hg hhides hfn
    (everyTag_of_not_mem (s := []) (by simp)) hmatches
  rw [List.nil_append, List.nil_append] at key
  rw [replaceMatches_start_eq_patch hms, key, ExceptT.lift_pure]

/-! ## Replacing the first start tag that is selected -/

/-- No tag in a chunk that is not selected looks like a start tag that is selected, if none that
is hidden in the chunk does. -/
theorem WellFormed.everyTag_of_not_selected {f : Flow} (hf : f.WellFormed) {c : Chunk}
    (hc : c ∈ f.chunks) (hsel : c.selectedBy sel = false)
    (hhides : ∀ t ∈ f.tags, t.selectedBy sel = true → contains c.hidden t.source = false) :
    EveryTag (f.IsPassedInside sel) c.source := by
  refine (hf.chunk c hc).isReadable.everyTag ?_ ?_ (c.everyTag_hidden fun x hx u hu e => ?_)
  · intro t ht u hu e
    rw [selectedBy_of_inside_eq (hf.tag u hu) ((hf.chunk c hc).tag ht) e,
      ← Chunk.selectedBy_of_tag? sel ht, hsel]
  · exact fun name _ u hu e => absurd e (inside_ne_cons (hf.tag u hu) (by decide) name)
  · by_contra hu'
    have hnone := hhides u hu (by simpa using hu')
    rw [OpenTag.source, e, hx] at hnone
    cases hnone

/-- The first start tag that is selected in the last part of a flow is replaced, if no text hidden
in front of it holds a copy. -/
theorem WellFormed.patch_retagFirst {f rest : Flow} (hf : f.WellFormed)
    (hrest : ∀ c ∈ rest.chunks, c ∈ f.chunks) (hprose : rest.WellFormed)
    (hname : ∀ t, (g t).name = t.name)
    (hhides : ∀ c ∈ rest.chunks.takeWhile (!·.selectedBy sel), ∀ t ∈ f.tags,
      t.selectedBy sel = true → contains c.hidden t.source = false)
    (hfn : ∀ t ∈ f.tags, t.selectedBy sel = true → Renewing fn g t) {pre : Text}
    (hpre : EveryTag (f.IsPassedInside sel) pre)
    {ms : List Match}
    (hms : List.Forall₂ Chunk.IsMatch ((rest.chunks.filter (·.selectedBy sel)).take 1) ms) :
    patch fn .start (pre ++ rest.source) ms = pure (pre ++ (rest.retagFirst sel g).source) := by
  induction rest generalizing pre ms with
  | text s =>
      obtain rfl := List.forall₂_nil_left_iff.1 hms
      rfl
  | chunk before c rest ih =>
      have hc : c ∈ f.chunks := hrest c List.mem_cons_self
      have hbefore := hpre.append (everyTag_of_isProse hprose.1)
      have hsource : pre ++ (Flow.chunk before c rest).source
          = pre ++ before ++ c.source ++ rest.source := by simp [Flow.source]
      rw [hsource, Flow.retagFirst]
      rw [chunks, List.filter_cons] at hms
      split at hms
      · -- here it is
        rename_i hsel
        obtain ⟨m, ms, hm, hlater, rfl⟩ := List.forall₂_cons_left_iff.1 hms
        obtain rfl := List.forall₂_nil_left_iff.1 hlater
        obtain ⟨t, ht, htsel⟩ := Chunk.exists_of_selectedBy hsel
        have hmem : t ∈ f.tags := mem_tags.2 ⟨c, hc, ht⟩
        have hnot : ¬ f.IsPassedInside sel t.inside := by
          intro h
          rw [h t hmem rfl] at htsel
          cases htsel
        rw [if_pos hsel, patch_cons, patchOne_retag hbefore hname (hf.chunk c hc) ht (fun _ => hnot)
          (hfn t hmem htsel) hm, pure_bind]
        simp [patch, Flow.source]
      · -- the chunk in front has another tag, and hides no copy
        rename_i hsel
        rw [Bool.not_eq_true] at hsel
        rw [chunks, List.takeWhile_cons_of_pos (by simp [hsel])] at hhides
        have hpassed := hf.everyTag_of_not_selected hc hsel (hhides c List.mem_cons_self)
        rw [if_neg (by simp [hsel]), ih (fun d hd => hrest d (List.mem_cons_of_mem c hd)) hprose.2.2
          (fun d hd => hhides d (List.mem_cons_of_mem c hd)) (hbefore.append hpassed) hms]
        simp [Flow.source]

/-- Replacing the start tag of the first element that a selector takes. -/
theorem WellFormed.replaceMatches_retagFirst {f : Flow} (hf : f.WellFormed)
    (hname : ∀ t, (g t).name = t.name)
    (hhides : ∀ c ∈ f.chunks.takeWhile (!·.selectedBy sel), ∀ t ∈ f.tags,
      t.selectedBy sel = true → contains c.hidden t.source = false)
    (hfn : ∀ t ∈ f.tags, t.selectedBy sel = true → Renewing fn g t) :
    replaceMatches fn .start sel (some 1) f.source = pure (f.retagFirst sel g).source := by
  obtain ⟨ms, hms, hmatches⟩ := hf.isReadable.matchesIn_source sel (some 1)
  have key := hf.patch_retagFirst (fun c hc => hc) hf hname hhides hfn
    (everyTag_of_not_mem (s := []) (by simp)) hmatches
  rw [List.nil_append, List.nil_append] at key
  rw [replaceMatches_start_eq_patch hms, key, ExceptT.lift_pure]

end Flow

end Stencil.Html
