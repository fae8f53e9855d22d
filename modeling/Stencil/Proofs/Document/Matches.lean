import Stencil.Html.Match
import Stencil.Proofs.Document.Region
import Stencil.Proofs.Document.Tree

set_option autoImplicit false

/-! # The elements a selector takes in a document

The matches in the source of a document are its own elements, in the order of their start tags
and each with the text it is written with: the position of a start tag leads back to the index
of its `<`, and the region there is the element.
-/

namespace Stencil.Html

open Text

/-! ## From a position to an index -/

/-- `l` and `a` are the starts of the lines up to the current one, and `k` is the current
index. -/
theorem offset?_advance_from (pre post : Text) (p : Position) (l : List Nat) (a k : Nat)
    (hline : p.line = l.length + 1) (hcolumn : a + p.column = k) :
    (p.advance pre).offset? (l ++ a :: lineStartsFrom k (pre ++ post)) = some (k + pre.length) := by
  induction pre generalizing p l a k with
  | nil =>
      show p.offset? _ = _
      rw [Position.offset?, hline, Nat.add_sub_cancel, List.getElem?_append_right (Nat.le_refl _)]
      simp [hcolumn]
  | cons c pre ih =>
      show ((p.step c).advance pre).offset? _ = _
      rw [List.cons_append, lineStartsFrom]
      by_cases hc : c = '\n'
      · have key := ih (p.step c) (l ++ [a]) (k + 1) (k + 1) (by simp [Position.step, hc, hline])
          (by simp [Position.step, hc])
        rw [if_pos hc]
        simpa [Nat.add_assoc, Nat.add_comm 1] using key
      · have key := ih (p.step c) l a (k + 1) (by simp [Position.step, hc, hline])
          (by simp [Position.step, hc, ← hcolumn, Nat.add_assoc])
        rw [if_neg hc, key, List.length_cons]
        congr 1
        omega

theorem offset?_advance (pre post : Text) :
    (Position.origin.advance pre).offset? (lineStarts (pre ++ post)) = some pre.length := by
  have key := offset?_advance_from pre post .origin [] 0 0 rfl rfl
  rwa [Nat.zero_add, List.nil_append] at key

/-! ## The matches of a document -/

/-- The match of an element whose start tag is written at a position. -/
def OpenTag.matchAt (t : OpenTag) (p : Position) (content : Document) : Match :=
  ⟨t.tagAt p, t.source, content.source, endTagText t.name⟩

namespace Document

/-- The matches of all elements of a document that is written at a position, in the order of
their start tags. -/
def matchesFrom (p : Position) : Document → List Match
  | text _ => []
  | element before tag content rest =>
      tag.matchAt (p.advance before) content ::
        (content.matchesFrom (p.advance (before ++ tag.source)) ++
          rest.matchesFrom
            (p.advance (before ++ tag.source ++ content.source ++ endTagText tag.name)))

/-- The matches of the elements of a document that a selector takes. -/
def selected (sel : Selector) (p : Position) (d : Document) : List Match :=
  (d.matchesFrom p).filter (sel.selects ·.tag)

theorem exists_of_mem_matchesFrom {d : Document} {p : Position} {m : Match}
    (hm : m ∈ d.matchesFrom p) : ∃ x ∈ d.elements, ∃ q, m = x.1.matchAt q x.2 := by
  induction d generalizing p with
  | text s => simp [matchesFrom] at hm
  | element before tag content rest ihc ihr =>
      simp only [matchesFrom, List.mem_cons, List.mem_append] at hm
      rcases hm with rfl | hm | hm
      · exact ⟨(tag, content), by simp, _, rfl⟩
      · obtain ⟨x, hx, h⟩ := ihc hm
        exact ⟨x, by simp [hx], h⟩
      · obtain ⟨x, hx, h⟩ := ihr hm
        exact ⟨x, by simp [hx], h⟩

/-- The region in front of the source of an element. -/
theorem WellFormed.region? {before : Text} {tag : OpenTag} {content rest : Document}
    (h : (Document.element before tag content rest).WellFormed) (r : Text) :
    Html.region? tag.name (tag.source ++ (content.source ++ endTagText tag.name ++ r))
      = some ⟨tag.source, content.source, endTagText tag.name⟩ := by
  cases h with
  | element hb ht hn hc hr => exact region?_element ht hn (hc.isBalanced _) r
  | raw hb ht hn hcss hr => exact region?_raw ht hn hcss r

theorem WellFormed.tag {before : Text} {t : OpenTag} {content rest : Document}
    (h : (Document.element before t content rest).WellFormed) : t.WellFormed := by
  cases h <;> assumption

theorem WellFormed.before {before : Text} {t : OpenTag} {content rest : Document}
    (h : (Document.element before t content rest).WellFormed) : IsRunning before := by
  cases h <;> assumption

theorem WellFormed.rest {before : Text} {t : OpenTag} {content rest : Document}
    (h : (Document.element before t content rest).WellFormed) : rest.WellFormed := by
  cases h <;> assumption

end Document

/-- The match of an element, computed from its tag alone; `none` when the source has no region
there. -/
def Tag.match? (source : Text) (tag : Tag) : Option Match :=
  ((tag.position.offset? (lineStarts source)).bind fun offset =>
    region? tag.name (source.drop offset)).map fun region =>
      ⟨tag, region.start, region.inner, region.close⟩

theorem ofElement_of_match? {source : Text} {e : Element} {m : Match}
    (h : e.tag.match? source = some m) : Match.ofElement source (lineStarts source) e = m := by
  rw [Tag.match?, Option.map_eq_some_iff] at h
  obtain ⟨region, hregion, rfl⟩ := h
  rw [Match.ofElement, hregion]

theorem match?_of_region? (pre : Text) (tag : Tag) {source s : Text} {region : Region}
    (hsource : source = pre ++ s) (hposition : tag.position = Position.origin.advance pre)
    (hregion : region? tag.name s = some region) :
    tag.match? source = some ⟨tag, region.start, region.inner, region.close⟩ := by
  rw [Tag.match?, hsource, hposition, offset?_advance, Option.bind_some, List.drop_left, hregion]
  rfl

theorem match?_tagAt (source pre : Text) {tag : OpenTag} {before : Text} {content rest : Document}
    (h : (Document.element before tag content rest).WellFormed) (r : Text)
    (hsource : source = pre ++ (tag.source ++ (content.source ++ endTagText tag.name ++ r))) :
    (tag.tagAt (Position.origin.advance pre)).match? source
      = some (tag.matchAt (Position.origin.advance pre) content) :=
  match?_of_region? pre (tag.tagAt _) hsource rfl (h.region? r)

/-- In a source, every tag of a piece that is a document leads to the match of its element. -/
theorem Document.match?_tagsFrom {d : Document} (h : d.WellFormed) (source pre post : Text)
    (hsource : source = pre ++ d.source ++ post) :
    (d.tagsFrom (Position.origin.advance pre)).map (Tag.match? source)
      = (d.matchesFrom (Position.origin.advance pre)).map some := by
  induction d generalizing pre post with
  | text s => rfl
  | element before tag content rest ihc ihr =>
      have hthis := match?_tagAt source (pre ++ before) h (rest.source ++ post)
        (by simp [hsource, Document.source])
      have hcontent : (content.tagsFrom (Position.origin.advance (pre ++ (before ++ tag.source)))).map
          (Tag.match? source)
            = (content.matchesFrom
                (Position.origin.advance (pre ++ (before ++ tag.source)))).map some := by
        cases h with
        | element hb ht hn hc hr =>
            exact ihc hc _ (endTagText tag.name ++ rest.source ++ post)
              (by simp [hsource, Document.source])
        | raw hb ht hn hcss hr => rfl
      have hrest := ihr h.rest
        (pre ++ (before ++ tag.source ++ content.source ++ endTagText tag.name)) post
        (by simp [hsource, Document.source])
      rw [Position.advance_append] at hthis hcontent hrest
      simp only [Document.tagsFrom, Document.matchesFrom, List.map_cons, List.map_append, hthis,
        hcontent, hrest]

/-! ## Selecting -/

theorem map_takeUpTo {α β : Type} (f : α → β) (limit : Option Int) (l : List α) :
    (takeUpTo limit l).map f = takeUpTo limit (l.map f) := by
  unfold takeUpTo
  split
  · rfl
  · rw [List.map_take]
  · rw [List.map_take, List.length_map]

theorem takeUpTo_nil {α : Type} (limit : Option Int) : takeUpTo limit ([] : List α) = [] := by
  unfold takeUpTo
  split <;> simp

theorem mem_of_match? {source : Text} {tag : Tag} {m : Match} (h : tag.match? source = some m) :
    char '<' ∈ source := by
  obtain ⟨region, hregion, -⟩ := Option.map_eq_some_iff.1 h
  obtain ⟨offset, -, hregion⟩ := Option.bind_eq_some_iff.1 hregion
  obtain ⟨found, hfound, -⟩ := Option.map_eq_some_iff.1 hregion
  refine List.mem_of_mem_drop (i := offset) ?_
  unfold startText? at hfound
  split at hfound
  · rename_i hdrop
    rw [hdrop]
    exact List.mem_cons_self
  · cases hfound

/-- The elements a selector takes are known from the start tags a source is read as, and from the
match that each tag the selector takes leads to. -/
theorem matchesIn_of_readsAs {source : Text} {tags : List Tag} {ms : List Match} {sel : Selector}
    (hread : ReadsAs false .markup .markup .origin source tags [])
    (hms : (tags.filter sel.selects).map (Tag.match? source) = ms.map some) (limit : Option Int) :
    matchesIn source sel limit = .ok (takeUpTo limit ms) := by
  rw [matchesIn]
  by_cases hlt : char '<' ∈ source
  · obtain ⟨ts, htags, hpass⟩ := hread
    obtain ⟨nodes, hnodes, hof⟩ := tagsOf_ofSource (tokens_of_readsTokens hpass)
    have hfound : ((elementsOf nodes).filter (sel.selects ·.tag)).map
        (Match.ofElement source (lineStarts source)) = ms := by
      rw [← htags, ← hof, tagsOf, List.filter_map, List.map_map] at hms
      refine List.map_injective_iff.2 (fun _ _ => Option.some.inj) (.trans ?_ hms)
      rw [List.map_map]
      refine List.map_congr_left fun e he => ?_
      obtain ⟨m, -, hm⟩ := List.mem_map.1 (hms ▸ List.mem_map_of_mem he)
      exact (congrArg some (ofElement_of_match? hm.symm)).trans hm
    rw [hnodes, if_neg (by simpa using hlt)]
    show Except.ok ((takeUpTo limit ((elementsOf nodes).filter (sel.selects ·.tag))).map _) = _
    rw [map_takeUpTo, hfound]
  · rw [if_pos (by simpa using hlt)]
    cases ms with
    | nil => rw [takeUpTo_nil]
    | cons m ms =>
        have hm : some m ∈ (tags.filter sel.selects).map (Tag.match? source) := by
          rw [hms]
          exact List.mem_map_of_mem List.mem_cons_self
        obtain ⟨tag, -, htag⟩ := List.mem_map.1 hm
        exact absurd (mem_of_match? htag) hlt

theorem Document.map_tag_matchesFrom (d : Document) (p : Position) :
    (d.matchesFrom p).map (·.tag) = d.tagsFrom p := by
  induction d generalizing p with
  | text s => rfl
  | element before tag content rest ihc ihr =>
      simp only [matchesFrom, tagsFrom, List.map_cons, List.map_append, ihc, ihr]
      rfl

/-- The elements a selector takes in the source of a document are its own elements. -/
theorem Document.WellFormed.matchesIn_source {d : Document} (h : d.WellFormed) (sel : Selector)
    (limit : Option Int) :
    matchesIn d.source sel limit = .ok (takeUpTo limit (d.selected sel .origin)) := by
  refine matchesIn_of_readsAs (h.readsAs_source false .origin (Or.inl rfl)) ?_ limit
  have key := d.match?_tagsFrom h d.source [] [] (by simp)
  change (d.tagsFrom .origin).map _ = (d.matchesFrom .origin).map some at key
  rw [← map_tag_matchesFrom, List.map_map, List.map_inj_left] at key
  rw [← map_tag_matchesFrom, List.filter_map, List.map_map, selected]
  exact List.map_congr_left fun m hm => key m (List.mem_of_mem_filter hm)

theorem Document.WellFormed.matchesIn_all {d : Document} (h : d.WellFormed) (sel : Selector) :
    matchesIn d.source sel none = .ok (d.selected sel .origin) := h.matchesIn_source sel none

end Stencil.Html
