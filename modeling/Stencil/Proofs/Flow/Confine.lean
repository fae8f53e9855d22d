import Stencil.Proofs.Flow.Patch
import Stencil.Proofs.Scope.Stamp

set_option autoImplicit false

/-! # Confining the style sheets of a flow

Each scoped style sheet of a flow is replaced at its own place, by one that is not scoped. Here
the rules of a sheet need not be readable: with a fault or without, what a sheet holds
afterwards opens no tag. The markers that are recorded are markers of the supply.
-/

namespace Stencil

open Text Html Vocabulary

/-- Whether all markers of a scope are made of small letters and digits. -/
structure Scope.WellFormed (scope : Scope) : Prop where
  loose : ∀ M ∈ scope.loose, IsMarker M
  strict : ∀ M ∈ scope.strict, IsMarker M

theorem Scope.wellFormed_empty : Scope.empty.WellFormed := ⟨by simp [empty], by simp [empty]⟩

theorem Scope.WellFormed.add {scope : Scope} (h : scope.WellFormed) (kind : ScopeKind) {M : Text}
    (hM : IsMarker M) : (scope.add kind M).WellFormed := by
  cases kind with
  | loose =>
      refine ⟨fun N hN => ?_, h.strict⟩
      rcases List.mem_append.1 hN with hN | hN
      exacts [h.loose N hN, List.mem_singleton.1 hN ▸ hM]
  | strict =>
      refine ⟨h.loose, fun N hN => ?_⟩
      rcases List.mem_append.1 hN with hN | hN
      exacts [h.strict N hN, List.mem_singleton.1 hN ▸ hM]

namespace Html

/-- Only raw text can be a scoped style sheet. -/
theorem Chunk.WellFormed.exists_sheet {c : Chunk} (h : c.WellFormed)
    (hsel : c.selectedBy Scope.scopedSheets = true) :
    ∃ t s, c = .raw t s ∧ t.IsScopedSheet ∧ t.WellFormed ∧ char '<' ∉ s := by
  obtain ⟨t, ht, htsel⟩ := Chunk.exists_of_selectedBy hsel
  have hsheet : t.IsScopedSheet := (h.tag ht).selectedBy_scopedSheets.1 htsel
  cases c with
  | opening u =>
      obtain rfl := Option.some.inj ht
      have hraw : sheetName ∈ RawText.names := by decide
      exact absurd (hsheet.1 ▸ hraw) h.2
  | raw u s =>
      obtain rfl := Option.some.inj ht
      obtain ⟨hu, hs⟩ := h.isReadable.wellFormed_sheet hsheet.1
      exact ⟨u, s, rfl, hsheet, hu, hs⟩
  | _ => cases ht

namespace Flow

/-- A flow with its scoped style sheets confined: they are not scoped any more, and hold a text
that opens no tag. -/
inductive Confines : Flow → Flow → Prop where
  | text (s : Text) : Confines (.text s) (.text s)
  | chunk {before : Text} {c : Chunk} {rest rest' : Flow} :
      c.selectedBy Scope.scopedSheets = false → Confines rest rest' →
      Confines (.chunk before c rest) (.chunk before c rest')
  | sheet {before : Text} {t : OpenTag} {s s' : Text} {rest rest' : Flow} :
      t.IsScopedSheet → char '<' ∉ s' → Confines rest rest' →
      Confines (.chunk before (.raw t s) rest) (.chunk before (.raw t.unscoped s') rest')

namespace Confines

variable {f g : Flow}

theorem wellFormed (h : Confines f g) (hf : f.WellFormed) : g.WellFormed := by
  induction h with
  | text s => exact hf
  | chunk _ _ ih => exact ⟨hf.1, hf.2.1, ih hf.2.2⟩
  | @sheet before t s s' rest rest' hsheet hs' _ ih =>
      obtain ⟨hbefore, hc, hrest⟩ := hf
      obtain ⟨ht, -⟩ := hc.isReadable.wellFormed_sheet hsheet.1
      have hraw : t.name ∈ RawText.names := hc.2.2.1
      have hend : contains s' ['<', '/'] = false := contains_eq_false_of_not_mem (by simp) hs'
      exact ⟨hbefore, ⟨ht.unscoped.isWritten, ht.unscoped.closesItself_eq_false, hraw, hend,
        fun _ => hs'⟩, ih hrest⟩

/-- The start tags are the same, up to those of the style sheets that are confined. -/
theorem exists_of_mem_tags (h : Confines f g) {u : OpenTag} (hu : u ∈ g.tags) :
    u ∈ f.tags ∨ ∃ t ∈ f.tags, t.IsScopedSheet ∧ u = t.unscoped := by
  induction h with
  | text s => exact Or.inl hu
  | chunk _ _ ih =>
      rw [mem_tags_chunk] at hu
      rcases hu with hu | hu
      · exact Or.inl (mem_tags_chunk.2 (Or.inl hu))
      · rcases ih hu with hu | ⟨t, ht, h⟩
        exacts [Or.inl (mem_tags_chunk.2 (Or.inr hu)), Or.inr ⟨t, mem_tags_chunk.2 (Or.inr ht), h⟩]
  | @sheet before t s s' rest rest' hsheet _ _ ih =>
      rw [mem_tags_chunk] at hu
      rcases hu with hu | hu
      · exact Or.inr ⟨t, mem_tags_chunk.2 (Or.inl rfl), hsheet, (Option.some.inj hu).symm⟩
      · rcases ih hu with hu | ⟨t, ht, h⟩
        exacts [Or.inl (mem_tags_chunk.2 (Or.inr hu)), Or.inr ⟨t, mem_tags_chunk.2 (Or.inr ht), h⟩]

/-- The hidden texts are the same, up to those of the style sheets that are confined. -/
theorem hidden_of_mem_chunks (h : Confines f g) {c : Chunk} (hc : c ∈ g.chunks) :
    (∃ d ∈ f.chunks, c.hidden = d.hidden) ∨
      ∃ s, c.hidden = s ++ endTagText sheetName ∧ char '<' ∉ s := by
  induction h with
  | text s => cases hc
  | @chunk before d rest rest' _ _ ih =>
      rcases List.mem_cons.1 hc with rfl | hc
      · exact Or.inl ⟨c, List.mem_cons_self, rfl⟩
      · exact (ih hc).imp_left fun ⟨e, he, h⟩ => ⟨e, List.mem_cons_of_mem d he, h⟩
  | @sheet before t s s' rest rest' hsheet hs' _ ih =>
      rcases List.mem_cons.1 hc with rfl | hc
      · refine Or.inr ⟨s', ?_, hs'⟩
        show s' ++ endTagText t.name = _
        rw [hsheet.1]
      · exact (ih hc).imp_left fun ⟨e, he, h⟩ => ⟨e, List.mem_cons_of_mem _ he, h⟩

end Confines
end Flow
end Html

/-! ## Confining them -/

namespace Scope

variable {markers : Markers} {E : Failure → Prop}

/-- A scoped style sheet is replaced by one that is not scoped, whether its rules can be read or
not. -/
theorem ends_confineBlock_unread (hmarkers : ∀ n, IsMarker (markers (n + 1))) {t : OpenTag}
    (ht : t.WellFormed) {css : Text} (hcss : char '<' ∉ css) (p : Position) {scope : Scope}
    (hscope : scope.WellFormed) (s : Session) :
    Work.Ends ((confineBlock markers (t.matchAt p (.text css))).run scope) s
      (fun r _ => ∃ css', char '<' ∉ css' ∧ r.1 = t.unscoped.source ++ css' ++ endTagText t.name ∧
        r.2.WellFormed) E := by
  rw [run_confineBlock ht]
  refine Work.ends_draw_bind ?_
  have hM : IsMarker (markers (s.drawn + 1)) := hmarkers s.drawn
  cases hconfine : t.scopeKind.confineSheet (markers (s.drawn + 1)) css with
  | ok css' =>
      have hlt := ScopeKind.lt_not_mem_confineSheet hconfine hM.lt_not_mem hcss
      exact Work.ends_pure ⟨css', hlt, rfl, hscope.add t.scopeKind hM⟩
  | error fault =>
      -- the sheet keeps its text, and the marker is not recorded
      exact Work.ends_write_bind (Work.ends_pure ⟨css, hcss, rfl, hscope⟩)

/-- The match of a style sheet says what the sheet holds. -/
theorem matchAt_of_isMatch {t : OpenTag} {s : Text} {m : Match} (hm : (Chunk.raw t s).IsMatch m)
    (hn : t.name = sheetName) : m = t.matchAt m.tag.position (.text s) := by
  obtain ⟨⟨u, hu, htag, hstart⟩, hsheet⟩ := hm
  obtain rfl := Option.some.inj hu
  obtain ⟨hinner, hclose⟩ := hsheet t s rfl hn
  cases m with
  | mk tag start inner close =>
      dsimp only at htag hstart hinner hclose
      rw [OpenTag.matchAt, hstart, hinner, hclose, ← htag]
      rfl

/-- A style sheet that is confined is passed over when those behind it are looked for. -/
theorem everyTag_confined {f : Flow} (hf : f.WellFormed) {t : OpenTag} (ht : t.WellFormed)
    {css : Text} (hcss : char '<' ∉ css) :
    EveryTag (f.IsPassedInside scopedSheets) (t.unscoped.source ++ css ++ endTagText t.name) := by
  have hopen : f.IsPassedInside scopedSheets t.unscoped.inside := by
    intro u hu e
    rw [selectedBy_of_inside_eq (hf.tag u hu) ht.unscoped.isWritten e, selectedBy_unscoped ht]
  have hclose : f.IsPassedInside scopedSheets ('/' :: t.name) := fun u hu e =>
    absurd e (inside_ne_cons (hf.tag u hu) (by decide) t.name)
  exact ((everyTag_source ht.unscoped hopen).append (everyTag_of_not_mem hcss)).append
    (everyTag_endTagText ht.name hclose)

/-- The scoped style sheets in the last part of a flow are confined one after the other. -/
theorem ends_patch_confineBlock (hmarkers : ∀ n, IsMarker (markers (n + 1))) {f rest : Flow}
    (hf : f.WellFormed) (hhides : f.HidesNo scopedSheets) (hrest : ∀ c ∈ rest.chunks, c ∈ f.chunks)
    (hprose : rest.WellFormed) {pre : Text}
    (hpre : EveryTag (f.IsPassedInside scopedSheets) pre)
    {ms : List Match}
    (hms : List.Forall₂ Chunk.IsMatch (rest.chunks.filter (·.selectedBy scopedSheets)) ms)
    {scope : Scope} (hscope : scope.WellFormed) (s : Session) :
    Work.Ends ((patch (confineBlock markers) .outer (pre ++ rest.source) ms).run scope) s
      (fun r _ => ∃ g, rest.Confines g ∧ r.1 = pre ++ g.source ∧ r.2.WellFormed) E := by
  induction rest generalizing pre ms scope s with
  | text u =>
      obtain rfl := List.forall₂_nil_left_iff.1 hms
      exact Work.ends_pure ⟨.text u, .text u, rfl, hscope⟩
  | chunk before c rest ih =>
      have hc : c ∈ f.chunks := hrest c List.mem_cons_self
      have hbefore := hpre.append (everyTag_of_isProse hprose.1)
      have hmore := @ih (fun d hd => hrest d (List.mem_cons_of_mem c hd)) hprose.2.2
      have hsource : pre ++ (Flow.chunk before c rest).source
          = pre ++ before ++ c.source ++ rest.source := by simp [Flow.source]
      rw [hsource]
      rw [Flow.chunks, List.filter_cons] at hms
      split at hms
      · -- a scoped style sheet, which is found where it stands
        rename_i hsel
        obtain ⟨m, ms, hm, hlater, rfl⟩ := List.forall₂_cons_left_iff.1 hms
        obtain ⟨t, css, rfl, hsheet, ht, hcss⟩ := (hf.chunk c hc).exists_sheet hsel
        have hmatch := matchAt_of_isMatch hm hsheet.1
        rw [hmatch]
        have houter : (Chunk.raw t css).source
            = (t.matchAt m.tag.position (.text css)).part .outer := by
          rw [outer_matchAt]
          simp [Chunk.source, OpenTag.source, Document.source]
        have hnot : ¬ f.IsPassedInside scopedSheets t.inside := by
          intro h
          have hnone := h t (Flow.mem_tags.2 ⟨_, hc, rfl⟩) rfl
          rw [ht.isWritten.selectedBy_scopedSheets.2 hsheet] at hnone
          cases hnone
        rw [patch_cons, houter, patchOne_of_everyTag hbefore ht.gt_not_mem hnot (outer_matchAt _ _ _)]
        rw [StateT.run_bind, StateT.run_bind, bind_assoc]
        refine (ends_confineBlock_unread hmarkers ht hcss _ hscope s).bind ?_
        rintro ⟨v, scope'⟩ s' ⟨css', hcss', hv, hscope'⟩
        dsimp only at hv hscope'
        rw [StateT.run_pure, pure_bind, hv]
        have hpassed := everyTag_confined hf ht hcss'
        refine (hmore (hbefore.append hpassed) hlater hscope' s').mono ?_ fun _ h => h
        rintro r s'' ⟨g, hconfines, hr, hscope''⟩
        refine ⟨.chunk before (.raw t.unscoped css') g, .sheet hsheet hcss' hconfines, ?_, hscope''⟩
        rw [hr]
        simp [Flow.source, Chunk.source, OpenTag.unscoped]
      · rename_i hsel
        rw [Bool.not_eq_true] at hsel
        have hpassed := hf.everyTag_of_not_selected hc hsel fun t ht => hhides c hc t ht
        refine (hmore (hbefore.append hpassed) hms hscope s).mono ?_ fun _ h => h
        rintro r s' ⟨g, hconfines, hr, hscope'⟩
        refine ⟨.chunk before c g, .chunk hsel hconfines, ?_, hscope'⟩
        rw [hr]
        simp [Flow.source]

/-- Replacing the scoped style sheets of a flow confines them. -/
theorem ends_confine_flow (hmarkers : ∀ n, IsMarker (markers (n + 1))) {f : Flow}
    (hf : f.WellFormed) (hhides : f.HidesNo scopedSheets) {scope : Scope}
    (hscope : scope.WellFormed) (s : Session) :
    Work.Ends ((Work.orFail
        (replaceMatches (confineBlock markers) .outer scopedSheets none f.source)).run scope) s
      (fun r _ => ∃ g, f.Confines g ∧ r.1 = g.source ∧ r.2.WellFormed) E := by
  obtain ⟨ms, hms, hmatches⟩ := hf.isReadable.matchesIn_source scopedSheets none
  have key := @ends_patch_confineBlock markers E hmarkers f f hf hhides (fun c hc => hc) hf []
    (everyTag_of_not_mem (by simp)) ms hmatches scope hscope s
  rw [replaceMatches_eq_patch (fun _ => rfl) hms, Work.orFail_lift]
  exact key

end Scope
end Stencil
