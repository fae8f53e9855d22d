import Stencil.Proofs.Document.Matches
import Stencil.Proofs.Source.Names

set_option autoImplicit false

/-! # Positions lead back to their tags

The line and the column of a cursor are counted on with every step of the reading, while the
starts of the lines are found in the source at once. Both count the same line feeds: wherever the
reading comes to, also where the second pass takes over from the first, the position of the cursor
is that of the part of the source which is behind it (`ComesTo.standsIn`). So the position of
every element leads to the `<` at which the reader found its start tag
(`lineStart_of_mem_elementsOf`), whatever stands before it: line breaks of other kinds, tags and
values of several lines, comments, or raw text.
-/

namespace Stencil.Html

open Text

/-! ## Where a reading comes to -/

/-- Whether a reading of a source comes to a cursor: from the front of the source step by step, and
in the second pass (`true`) from where the first has stopped. -/
inductive ComesTo (source : Text) : Bool → Cursor → Prop
  | front : ComesTo source false (Cursor.start source)
  | again {ts : List Token} {paused : Cursor}
      (h : (Cursor.start source).pass false = .ok (ts, paused)) : ComesTo source true paused
  | go {last : Bool} {c : Cursor} {ts : List Token} {mode : Mode} {rest : Text}
      (h : ComesTo source last c)
      (hnext : Step.next last c.mode c.position c.rest = .ok (.go ts mode rest)) :
      ComesTo source last (c.moveTo mode rest)

namespace Cursor

/-- Whether a cursor stands somewhere in a source, with the position that belongs to the place. -/
def StandsIn (source : Text) (c : Cursor) : Prop :=
  ∃ before, source = before ++ c.rest ∧ c.position = Position.origin.advance before

theorem standsIn_start (source : Text) : (Cursor.start source).StandsIn source := ⟨[], rfl, rfl⟩

/-- Moving on counts on the position by what is passed over. -/
theorem StandsIn.moveTo {source : Text} {c : Cursor} (h : c.StandsIn source) (mode : Mode)
    {rest : Text} (hrest : rest <:+ c.rest) : (c.moveTo mode rest).StandsIn source := by
  obtain ⟨before, hsource, hposition⟩ := h
  obtain ⟨passed, hpassed⟩ := hrest
  refine ⟨before ++ passed, ?_, ?_⟩
  · rw [hsource, ← hpassed, List.append_assoc]
    rfl
  · rw [Cursor.moveTo, ← hpassed, take_length_sub, hposition, Position.advance_append]

/-- A pass stops at a cursor that stands in the source. -/
theorem StandsIn.pass {source : Text} {last : Bool} {c final : Cursor} {ts : List Token}
    (h : c.StandsIn source) (hpass : c.pass last = .ok (ts, final)) : final.StandsIn source := by
  fun_induction Cursor.pass last c generalizing ts final with
  | case1 c _ =>
      cases hpass
      exact h
  | case2 c _ rejection _ => cases hpass
  | case3 c _ tokens rest hnext =>
      cases hpass
      exact h.moveTo _ (Step.next_isFrom hnext).2
  | case4 c _ tokens mode rest hnext _ ih =>
      obtain ⟨found, hmore, hpass⟩ := eq_of_bind_ok hpass
      cases hpass
      exact ih (h.moveTo mode (Step.next_isFrom hnext).2) hmore
  | case5 c _ tokens mode rest hnext _ =>
      cases hpass
      exact h

end Cursor

/-- Wherever a reading comes to, the cursor has the position that belongs to its place. -/
theorem ComesTo.standsIn {source : Text} {last : Bool} {c : Cursor} (h : ComesTo source last c) :
    c.StandsIn source := by
  induction h with
  | front => exact Cursor.standsIn_start source
  | again hpass => exact (Cursor.standsIn_start source).pass hpass
  | go _ hnext ih => exact ih.moveTo _ (Step.next_isFrom hnext).2

theorem one_le_line_advance (p : Position) (hp : 1 ≤ p.line) (s : Text) :
    1 ≤ (p.advance s).line := by
  induction s generalizing p with
  | nil => exact hp
  | cons c s ih =>
      refine ih (p.step c) ?_
      rw [Position.step]
      split
      exacts [Nat.le_add_left 1 _, hp]

/-! ## Where tags are read -/

/-- Whether a reading of a source finds a token at an index, in the step that it takes there. -/
def FindsAt (source : Text) (index : Nat) (t : Token) : Prop :=
  ∃ last c step, ComesTo source last c ∧ source.length = index + c.rest.length ∧
    Step.next last c.mode c.position c.rest = .ok step ∧ t ∈ step.found.1

theorem findsAt_of_next {source : Text} {last : Bool} {c : Cursor} {step : Step} {t : Token}
    (h : ComesTo source last c) (hnext : Step.next last c.mode c.position c.rest = .ok step)
    (ht : t ∈ step.found.1) : ∃ index, FindsAt source index t := by
  obtain ⟨before, hsource, -⟩ := h.standsIn
  exact ⟨before.length, last, c, step, h, by rw [← List.length_append, ← hsource], hnext, ht⟩

/-- Every token of a pass is found somewhere in the source. -/
theorem findsAt_of_mem_pass {source : Text} {last : Bool} {c final : Cursor} {ts : List Token}
    (h : ComesTo source last c) (hpass : c.pass last = .ok (ts, final)) :
    ∀ t ∈ ts, ∃ index, FindsAt source index t := by
  fun_induction Cursor.pass last c generalizing ts final with
  | case1 c _ =>
      cases hpass
      simp
  | case2 c _ rejection _ => cases hpass
  | case3 c _ tokens rest hnext =>
      cases hpass
      exact fun t ht => findsAt_of_next h hnext ht
  | case4 c _ tokens mode rest hnext _ ih =>
      obtain ⟨found, hmore, hpass⟩ := eq_of_bind_ok hpass
      cases hpass
      intro t ht
      rcases List.mem_append.1 ht with ht | ht
      exacts [findsAt_of_next h hnext ht, ih (h.go hnext) hmore t ht]
  | case5 c _ tokens mode rest hnext _ =>
      cases hpass
      exact fun t ht => findsAt_of_next h hnext ht

/-- Every start tag among the tokens of a source is found somewhere in it. -/
theorem findsAt_of_mem_tokens {source : Text} {ts : List Token} (h : tokens source = .ok ts)
    {p : Position} {tag : StartTag} (htag : .start p tag ∈ ts) :
    ∃ index, FindsAt source index (.start p tag) := by
  obtain ⟨first, paused, second, final, left, hfirst, hsecond, rfl, hleft⟩ :=
    Cursor.exists_passes (c := Cursor.start source) h
  simp only [List.mem_append] at htag
  rcases htag with (htag | htag) | htag
  exacts [findsAt_of_mem_pass .front hfirst _ htag,
    findsAt_of_mem_pass (.again hfirst) hsecond _ htag, (hleft _ htag).elim]

/-- The position of a start tag leads to the index at which it is found, and the tag stands
there. -/
theorem FindsAt.leadsBack {source : Text} {index : Nat} {p : Position} {tag : StartTag}
    (h : FindsAt source index (.start p tag)) :
    1 ≤ p.line ∧ p.offset? (lineStarts source) = some index ∧
      ∃ r rest, source.drop index = char '<' :: r ∧ StartTag.read r = .tag tag rest := by
  obtain ⟨last, c, step, hcomes, hindex, hnext, htag⟩ := h
  obtain ⟨hp, -, r, hrest, -, hread⟩ := Step.of_mem_next hnext htag
  obtain ⟨before, hsource, hposition⟩ := hcomes.standsIn
  obtain rfl : index = before.length := by
    rw [hsource, List.length_append] at hindex
    omega
  refine ⟨?_, ?_, r, _, ?_, hread⟩
  · rw [hp, hposition]
    exact one_le_line_advance Position.origin (Nat.le_refl 1) before
  · rw [hp, hposition, hsource]
    exact offset?_advance before c.rest
  · rw [hsource, List.drop_left, hrest]

/-- Every element of a source leads back to the `<` that opened it: its line is a line of the
source, and its column behind the start of that line is the index at which the reader found its
start tag. -/
theorem lineStart_of_mem_elementsOf {source : Text} {nodes : List Node}
    (h : Node.ofSource source = .ok nodes) {e : Element} (he : e ∈ elementsOf nodes) :
    ∃ lineStart tag r rest, 1 ≤ e.tag.position.line ∧
      (lineStarts source)[e.tag.position.line - 1]? = some lineStart ∧
      FindsAt source (lineStart + e.tag.position.column) (.start e.tag.position tag) ∧
      source.drop (lineStart + e.tag.position.column) = char '<' :: r ∧
      StartTag.read r = .tag tag rest ∧
      e.tag.name = tag.name ∧ e.tag.attrs = Table.ofPairs tag.attrs := by
  obtain ⟨ts, hts, t, ht, hopened⟩ :=
    exists_tokens_of_mem_tagsOf h (List.mem_map.2 ⟨e, he, rfl⟩)
  cases t with
  | close name => cases hopened
  | text kind content => cases hopened
  | start p tag =>
      obtain ⟨index, hfinds⟩ := findsAt_of_mem_tokens hts ht
      obtain ⟨hline, hoffset, r, rest, hdrop, hread⟩ := hfinds.leadsBack
      obtain ⟨lineStart, hstart, rfl⟩ := Option.map_eq_some_iff.1 hoffset
      have htag : (⟨tag.name, Table.ofPairs tag.attrs, p⟩ : Tag) = e.tag := Option.some.inj hopened
      rw [← htag]
      exact ⟨lineStart, tag, r, rest, hline, hstart, hfinds, hdrop, hread, rfl, rfl⟩

/-- A source with line breaks of several kinds, in running text, in a comment, in a tag, in a value
and in raw text. -/
def raggedSource : Text :=
  "a\r<!--\n-->\u2028<p\n class='x\ny'>\x0c<script>\n<i></script><b>".text

theorem lineStart_of_mem_elementsOf_raggedSource : ∃ nodes e,
    Node.ofSource raggedSource = .ok nodes ∧ e ∈ elementsOf nodes ∧
      e.tag = ⟨['b'], [], ⟨5, 12⟩⟩ ∧ (lineStarts raggedSource)[4]? = some 37 ∧
      FindsAt raggedSource 49 (.start ⟨5, 12⟩ ⟨['b'], [], false⟩) ∧
      raggedSource.drop 49 = "<b>".text := by
  have htags : (Node.ofSource raggedSource).map tagsOf
      = .ok [⟨['p'], [("class".text, "x\ny".text)], ⟨2, 4⟩⟩, ⟨"script".text, [], ⟨4, 4⟩⟩,
          ⟨['b'], [], ⟨5, 12⟩⟩] := by decide +kernel
  cases hnodes : Node.ofSource raggedSource with
  | error e => rw [hnodes] at htags; cases htags
  | ok nodes =>
      rw [hnodes] at htags
      have hb : (⟨['b'], [], ⟨5, 12⟩⟩ : Tag) ∈ tagsOf nodes := by
        rw [Except.ok.inj htags]
        simp
      obtain ⟨e, he, htag⟩ := List.mem_map.1 hb
      obtain ⟨lineStart, tag, r, rest, -, hstart, hfinds, hdrop, hread, -⟩ :=
        lineStart_of_mem_elementsOf hnodes he
      rw [htag] at hstart hfinds hdrop
      have hline : (lineStarts raggedSource)[4]? = some 37 := by decide
      obtain rfl : 37 = lineStart := Option.some.inj (hline.symm.trans hstart)
      have hsource : raggedSource.drop 49 = "<b>".text := by decide
      obtain rfl : "b>".text = r := (List.cons.inj (hsource.symm.trans hdrop)).2
      obtain rfl : ⟨['b'], [], false⟩ = tag := by
        have hb : StartTag.read "b>".text = .tag ⟨['b'], [], false⟩ [] := by decide +kernel
        exact (StartTag.Reading.tag.inj (hb.symm.trans hread)).1
      exact ⟨nodes, e, rfl, he, htag, hline, hfinds, hsource⟩

end Stencil.Html
