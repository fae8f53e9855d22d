import Stencil.Proofs.Document.Capture

set_option autoImplicit false

/-! # Replacing elements at their own places

A source is cut into the texts that stay and the elements that a selector takes. When none of
these elements stands inside another one, replacing them asks for one replacement each, in the
order of the elements, and puts it where its element stood, however often the same text stands
in the source. The invariant is that all that is in front of the next element is quiet.
-/

namespace Stencil

section

variable {m : Type → Type} [Monad m] [LawfulMonad m]

/-- Work on the items of a list gives only good results when each of its steps does. -/
theorem gives_mapM {α β : Type} {q : β → Prop} {f : α → m β} {l : List α}
    (h : ∀ a ∈ l, Gives q (f a)) : Gives (fun bs => ∀ b ∈ bs, q b) (l.mapM f) := by
  induction l with
  | nil =>
      rw [List.mapM_nil]
      exact gives_pure (by simp)
  | cons a l ih =>
      rw [List.mapM_cons]
      refine (h a (by simp)).bind fun b hb => ?_
      refine (ih fun x hx => h x (by simp [hx])).bind fun bs hbs => gives_pure ?_
      exact List.forall_mem_cons.2 ⟨hb, hbs⟩

end

namespace Html

open Text

/-- A part of a source: a text that stays, or an element that is taken. -/
inductive Segment where
  | kept (s : Text)
  | taken (found : Match)
  deriving DecidableEq, Repr

namespace Segment

/-- The text of a segment. -/
def source : Segment → Text
  | kept s => s
  | taken found => found.outer

/-- The element of a segment. -/
def found? : Segment → Option Match
  | kept _ => none
  | taken found => some found

/-- What comes to stand for a segment. -/
def replaceBy {m : Type → Type} [Monad m] (fn : Match → m Text) : Segment → m Text
  | kept s => pure s
  | taken found => fn found

end Segment

/-! ## The segments of a document -/

namespace Document

/-- The source of a document that is written at a position, cut at the elements that a selector
takes and that stand in no other one. -/
def segments (sel : Selector) (p : Position) : Document → List Segment
  | text s => [.kept s]
  | element before tag content rest =>
      let behind :=
        rest.segments sel
          (p.advance (before ++ tag.source ++ content.source ++ endTagText tag.name))
      if tag.selectedBy sel then
        .kept before :: .taken (tag.matchAt (p.advance before) content) :: behind
      else
        .kept (before ++ tag.source) ::
          (content.segments sel (p.advance (before ++ tag.source)) ++
            .kept (endTagText tag.name) :: behind)

/-- The segments make up the source. -/
theorem flatten_source_segments (sel : Selector) (p : Position) (d : Document) :
    ((d.segments sel p).map Segment.source).flatten = d.source := by
  induction d generalizing p with
  | text s => simp [segments, Segment.source, source]
  | element before tag content rest ihc ihr =>
      rw [segments]
      split
      · simp [Segment.source, Match.outer, OpenTag.matchAt, source, ihr]
      · simp [Segment.source, source, ihc, ihr]

/-- When no element that is taken stands inside another one, all of them are segments. -/
theorem filterMap_found_segments {sel : Selector} {d : Document} (h : d.IsFlat sel) (p : Position) :
    (d.segments sel p).filterMap Segment.found? = d.selected sel p := by
  induction d generalizing p with
  | text s => rfl
  | element before tag content rest ihc ihr =>
      have hrest := ihr (fun x hx => h x (by simp [hx]))
        (p.advance (before ++ tag.source ++ content.source ++ endTagText tag.name))
      rw [segments, selected_element]
      split
      · rename_i hsel
        have hcontent : content.Untouched sel := h (tag, content) (by simp) hsel
        rw [selected_of_untouched hcontent, ← hrest]
        rfl
      · have hcontent := ihc (fun x hx => h x (by simp [hx])) (p.advance (before ++ tag.source))
        rw [List.filterMap_cons_none rfl, List.filterMap_append, hcontent,
          List.filterMap_cons_none rfl, hrest]
        rfl

/-- The texts that stay are quiet. -/
theorem WellFormed.quiet_kept {sel : Selector} {d : Document} (h : d.WellFormed) (p : Position)
    {s : Text} (hs : .kept s ∈ d.segments sel p) : Quiet sel s := by
  induction d generalizing p with
  | text t =>
      obtain rfl : s = t := by simpa [segments] using hs
      cases h with
      | text hrunning => exact everyTag_of_isRunning hrunning
  | element before tag content rest ihc ihr =>
      have hb : Quiet sel before := everyTag_of_isRunning h.before
      rw [segments] at hs
      split at hs
      · simp only [List.mem_cons, Segment.kept.injEq, reduceCtorEq, false_or] at hs
        rcases hs with rfl | hs
        exacts [hb, ihr h.rest _ hs]
      · rename_i hsel
        rw [Bool.not_eq_true] at hsel
        simp only [List.mem_cons, List.mem_append, Segment.kept.injEq] at hs
        rcases hs with rfl | hs | rfl | hs
        · exact hb.append (h.tag.quiet_source hsel)
        · cases h with
          | element _ _ _ hc _ => exact ihc hc _ hs
          | raw _ _ _ hcss _ =>
              obtain rfl : s = _ := by simpa [segments] using hs
              exact everyTag_of_not_mem hcss
        · exact h.tag.quiet_endTagText hsel
        · exact ihr h.rest _ hs

/-- The elements that are taken are elements of the document. -/
theorem exists_of_taken {sel : Selector} {d : Document} {p : Position} {found : Match}
    (h : .taken found ∈ d.segments sel p) :
    ∃ x ∈ d.elements, x.1.selectedBy sel = true ∧ ∃ q, found = x.1.matchAt q x.2 := by
  induction d generalizing p with
  | text s => simp [segments] at h
  | element before tag content rest ihc ihr =>
      have hlift : (∃ x ∈ rest.elements, x.1.selectedBy sel = true ∧ ∃ q, found = x.1.matchAt q x.2) →
          ∃ x ∈ (element before tag content rest).elements, x.1.selectedBy sel = true ∧
            ∃ q, found = x.1.matchAt q x.2 := by
        rintro ⟨x, hx, hfound⟩
        exact ⟨x, by simp [hx], hfound⟩
      rw [segments] at h
      split at h
      · rename_i hsel
        simp only [List.mem_cons, reduceCtorEq, Segment.taken.injEq, false_or] at h
        rcases h with rfl | h
        exacts [⟨(tag, content), by simp, hsel, _, rfl⟩, hlift (ihr h)]
      · simp only [List.mem_cons, List.mem_append, reduceCtorEq, false_or] at h
        rcases h with h | h
        · obtain ⟨x, hx, hfound⟩ := ihc h
          exact ⟨x, by simp [hx], hfound⟩
        · exact hlift (ihr h)

end Document

/-! ## Replacing the elements of segments -/

section

variable {m : Type → Type} [Monad m] [LawfulMonad m] {fn : Match → m Text} {sel : Selector}

/-- The elements of some segments are replaced one after the other, each where it stands. -/
theorem patch_segments {segs : List Segment} (hkept : ∀ s, .kept s ∈ segs → Quiet sel s)
    (htaken : ∀ found, .taken found ∈ segs →
      ∃ t : OpenTag, t.WellFormed ∧ t.selectedBy sel = true ∧
        ∃ q content, found = t.matchAt q content)
    (hfn : ∀ found, .taken found ∈ segs → Gives (Quiet sel) (fn found)) {pre : Text}
    (hpre : Quiet sel pre) :
    patch fn .outer (pre ++ (segs.map Segment.source).flatten) (segs.filterMap Segment.found?)
      = segs.mapM (Segment.replaceBy fn) >>= fun parts => pure (pre ++ parts.flatten) := by
  induction segs generalizing pre with
  | nil => simp [patch]
  | cons seg segs ih =>
      have hrest := fun {pre : Text} (hpre : Quiet sel pre) =>
        ih (fun s hs => hkept s (by simp [hs])) (fun found h => htaken found (by simp [h]))
          (fun found h => hfn found (by simp [h])) hpre
      cases seg with
      | kept s =>
          have key := hrest (hpre.append (hkept s (by simp)))
          rw [List.append_assoc] at key
          rw [List.mapM_cons, List.filterMap_cons, Segment.replaceBy, pure_bind, bind_assoc]
          show patch fn .outer (pre ++ (s ++ (segs.map Segment.source).flatten))
            (segs.filterMap Segment.found?) = _
          rw [key]
          refine bind_congr fun parts => ?_
          rw [pure_bind, List.flatten_cons, List.append_assoc]
      | taken found =>
          obtain ⟨t, ht, hsel, q, content, rfl⟩ := htaken found (by simp)
          have hstep : patchOne fn .outer (pre ++ (t.source ++ content.source ++ endTagText t.name)
              ++ (segs.map Segment.source).flatten) (t.matchAt q content) = _ :=
            patchOne_outer ht hsel hpre _ q content
          rw [List.mapM_cons, List.filterMap_cons, Segment.replaceBy, bind_assoc]
          show patch fn .outer (pre ++ ((t.source ++ content.source ++ endTagText t.name)
              ++ (segs.map Segment.source).flatten))
            (t.matchAt q content :: segs.filterMap Segment.found?) = _
          rw [← List.append_assoc, patch_cons, hstep, bind_assoc]
          refine hfn _ (by simp) _ _ fun v hv => ?_
          rw [pure_bind, hrest (hpre.append hv), bind_assoc]
          refine bind_congr fun parts => ?_
          rw [pure_bind, List.flatten_cons, List.append_assoc]

/-- What comes to stand for some segments is quiet. -/
theorem gives_mapM_replaceBy {segs : List Segment} (hkept : ∀ s, .kept s ∈ segs → Quiet sel s)
    (hfn : ∀ found, .taken found ∈ segs → Gives (Quiet sel) (fn found)) :
    Gives (fun parts => Quiet sel parts.flatten) (segs.mapM (Segment.replaceBy fn)) := by
  have hparts : Gives (fun parts => ∀ part ∈ parts, Quiet sel part)
      (segs.mapM (Segment.replaceBy fn)) := by
    refine gives_mapM fun seg hseg => ?_
    cases seg with
    | kept s => exact gives_pure (hkept s hseg)
    | taken found => exact hfn found hseg
  refine hparts.mono fun parts hquiet => ?_
  induction parts with
  | nil => exact everyTag_of_not_mem (by simp)
  | cons part parts ih =>
      rw [List.flatten_cons]
      exact (hquiet part (by simp)).append (ih fun s hs => hquiet s (by simp [hs]))

/-- Replacing the elements that a selector takes, when none stands inside another one. -/
theorem Document.WellFormed.replaceMatches_segments {d : Document} (h : d.WellFormed)
    (hflat : d.IsFlat sel)
    (hfn : ∀ found ∈ d.selected sel .origin, Gives (Quiet sel) (fn found)) :
    replaceMatches fn .outer sel none d.source
      = ExceptT.lift (List.flatten <$> (d.segments sel .origin).mapM (Segment.replaceBy fn)) := by
  have hkept : ∀ s, .kept s ∈ d.segments sel .origin → Quiet sel s := fun s => h.quiet_kept .origin
  have hfn' : ∀ found, .taken found ∈ d.segments sel .origin → Gives (Quiet sel) (fn found) := by
    intro found hfound
    refine hfn found ?_
    rw [← filterMap_found_segments hflat]
    exact List.mem_filterMap.2 ⟨_, hfound, rfl⟩
  have hpatch : patch fn .outer d.source (d.selected sel .origin)
      = List.flatten <$> (d.segments sel .origin).mapM (Segment.replaceBy fn) := by
    have key := patch_segments hkept (fun found hfound => ?_) hfn'
      (everyTag_of_not_mem (P := IsQuietInside sel) (s := []) (by simp))
    · rw [List.nil_append, flatten_source_segments, filterMap_found_segments hflat] at key
      rw [map_eq_pure_bind]
      simpa using key
    · obtain ⟨x, hx, hsel, q, rfl⟩ := exists_of_taken hfound
      exact ⟨x.1, h.tag_of_mem x hx, hsel, q, x.2, rfl⟩
  rw [replaceMatches_of_gives (h.matchesIn_all sel), hpatch]
  -- what is left is quiet, so nothing is left over for a second pass
  rw [hpatch, map_eq_pure_bind]
  exact (gives_mapM_replaceBy hkept hfn').bind fun parts hparts => gives_pure fun _ name hname =>
    hparts.leftovers_eq_nil hname

/-! ## The elements of a name -/

/-- In a plain document in which no element of a name stands inside another one, replacing the
elements of that name by plain documents without that name asks for a replacement once for
each of them, in their order, and puts it in the place of its element; all the rest stays. The name
is read as the selector of that name. -/
theorem Document.Plain.replaceMatches_ofName {d : Document} (hd : d.Plain) {name : Text}
    (hname : isElementName name = true)
    (hflat : ∀ x ∈ d.elements, x.1.name = name → x.2.Lacks name)
    (hfn : ∀ ms, matchesIn d.source (.ofName name) none = .ok ms → ∀ found ∈ ms,
      Gives (fun t => ∃ e : Document, e.Plain ∧ e.Lacks name ∧ e.source = t) (fn found)) :
    replaceMatches fn .outer (.ofName name) none d.source
        = ExceptT.lift (List.flatten <$>
            (d.segments (.ofName name) .origin).mapM (Segment.replaceBy fn)) ∧
      ((d.segments (.ofName name) .origin).map Segment.source).flatten = d.source ∧
      (d.segments (.ofName name) .origin).filterMap Segment.found?
        = (d.matchesFrom .origin).filter (·.tag.name = name) ∧
      (name.all Selector.isNameChar = true → Selector.parse? name = some (.ofName name)) := by
  have hlower := map_toLower_of_isElementName hname
  have hwf := hd.wellFormed
  have hisFlat : d.IsFlat (.ofName name) := by
    intro x hx hsel
    have hcontent := hwf.content_of_mem hd.rawless x hx
    exact hcontent.untouched_of_lacks hlower (hflat x hx (hwf.name_of_selected hlower hx hsel))
  refine ⟨hwf.replaceMatches_segments hisFlat fun found hfound => ?_,
    flatten_source_segments _ _ d, ?_, parse?_name hname⟩
  · refine (hfn _ (hwf.matchesIn_all _) found hfound).mono fun t ht => ?_
    obtain ⟨e, he, hlacks, rfl⟩ := ht
    exact he.wellFormed.quiet (he.wellFormed.untouched_of_lacks hlower hlacks)
  · rw [filterMap_found_segments hisFlat, hwf.selected_ofName hlower]

end

/-- Two equal elements, one behind the other, and a third one inside another element. -/
def threeMarks : Document :=
  .element "a".text (.bare "b".text) (.text "x".text)
    (.element [] (.bare "b".text) (.text "x".text)
      (.element [] (.bare "p".text)
        (.element [] (.bare "b".text) (.text []) (.text "c".text)) (.text [])))

/-- Counts the elements it is asked for: puts as many stars as there were calls before this one
in front of the content, and the whole in another element. -/
def starMark (found : Match) : StateM Nat Text := do
  let calls ← get
  set (calls + 1)
  pure ((OpenTag.bare "i".text).source ++ (List.replicate calls (char '*') ++ found.inner) ++
    endTagText "i".text)

theorem replaceMatches_ofName_threeMarks :
    threeMarks.source = "a<b>x</b><b>x</b><p><b></b>c</p>".text ∧ threeMarks.Plain ∧
      isElementName "b".text = true ∧
      (∀ x ∈ threeMarks.elements, x.1.name = "b".text → x.2.Lacks "b".text) ∧
      (∀ ms, matchesIn threeMarks.source (.ofName "b".text) none = .ok ms → ∀ found ∈ ms,
        Gives (fun t => ∃ e : Document, e.Plain ∧ e.Lacks "b".text ∧ e.source = t)
          (starMark found)) ∧
      (replaceMatches starMark .outer (.ofName "b".text) none threeMarks.source).run.run 0
        = (.ok "a<i>x</i><i>*x</i><p><i>**</i>c</p>".text, 3) ∧
      Selector.parse? "b".text = some (.ofName "b".text) := by
  have hplain : threeMarks.Plain := by decide +kernel
  have hname : isElementName "b".text = true := by decide
  have hflat : ∀ x ∈ threeMarks.elements, x.1.name = "b".text → x.2.Lacks "b".text := by
    decide +kernel
  have hinner : ∀ found ∈ threeMarks.selected (.ofName "b".text) .origin,
      IsRunning found.inner := by decide +kernel
  have hfn : ∀ ms, matchesIn threeMarks.source (.ofName "b".text) none = .ok ms → ∀ found ∈ ms,
      Gives (fun t => ∃ e : Document, e.Plain ∧ e.Lacks "b".text ∧ e.source = t)
        (starMark found) := by
    intro ms hms found hfound
    rw [hplain.wellFormed.matchesIn_all] at hms
    obtain rfl := Except.ok.inj hms
    refine gives_of_run fun calls => gives_pure ?_
    refine ⟨.element [] (.bare "i".text) (.text (List.replicate calls (char '*') ++ found.inner))
      (.text []), ⟨?_, ?_⟩, ?_, ?_⟩
    · have hstars : IsRunning (List.replicate calls (char '*') ++ found.inner) := by
        intro c hc
        rcases List.mem_append.1 hc with hc | hc
        · obtain rfl := List.eq_of_mem_replicate hc
          decide
        · exact hinner found hfound c hc
      exact .element (by simp [IsRunning]) (by decide +kernel) (by decide) (.text hstars)
        (.text (by simp [IsRunning]))
    · simp [Document.Rawless, OpenTag.bare, RawText.names]
    · simp [Document.Lacks, OpenTag.bare]
    · show _ = (OpenTag.bare "i".text).source ++ (List.replicate calls (char '*') ++ found.inner) ++
        endTagText "i".text
      simp [Document.source, OpenTag.bare]
  obtain ⟨hreplaced, -, -, hparse⟩ := hplain.replaceMatches_ofName hname hflat hfn
  refine ⟨by decide, hplain, hname, hflat, hfn, ?_, hparse (by decide)⟩
  rw [hreplaced]
  show @Eq (Except Overlong Text × Nat) _ _
  decide +kernel

end Html
end Stencil
