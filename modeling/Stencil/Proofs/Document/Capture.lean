import Mathlib.Data.List.TakeWhile
import Stencil.Proofs.Document.Select

set_option autoImplicit false

/-! # Capturing the elements of a name

The matches of a name in the source of a plain document are the elements of that name, one
match for each, in the order of their start tags and however they stand inside each other. A
match holds what is written: the start tag, the content and the end tag of its own element, at
the place where the element stands.
-/

namespace Stencil.Html

open Text

/-- What is captured of an element: its name and attributes as they are read, its source in
three parts, and the whole of it. -/
structure Capture where
  name : Text
  attrs : List (Text × Text)
  start : Text
  inner : Text
  close : Text
  outer : Text
  deriving DecidableEq, Repr

/-- What a match captures. -/
def Match.capture (m : Match) : Capture :=
  ⟨m.tag.name, m.tag.attrs, m.start, m.inner, m.close, m.outer⟩

/-- What is written of an element of a document. -/
def captureOf (x : OpenTag × Document) : Capture where
  name := x.1.name
  attrs := x.1.pairs
  start := x.1.source
  inner := x.2.source
  close := endTagText x.1.name
  outer := x.1.source ++ x.2.source ++ endTagText x.1.name

/-! ## Matches and elements -/

/-- Attributes with distinct names are read as they are written. -/
theorem capture_matchAt {t : OpenTag} (h : (Table.names t.pairs).Nodup) (p : Position)
    (content : Document) : (t.matchAt p content).capture = captureOf (t, content) := by
  have htable : t.table = t.pairs := Table.ofPairs_eq_self h
  have hattrs : (t.matchAt p content).tag.attrs = t.pairs := htable
  rw [Match.capture, hattrs]
  rfl

namespace Document

/-- The matches of a document capture its elements. -/
theorem map_capture_matchesFrom {d : Document}
    (h : ∀ x ∈ d.elements, (Table.names x.1.pairs).Nodup) (p : Position) :
    (d.matchesFrom p).map Match.capture = d.elements.map captureOf := by
  induction d generalizing p with
  | text s => rfl
  | element before tag content rest ihc ihr =>
      have hthis := capture_matchAt (h (tag, content) (by simp)) (p.advance before) content
      have hcontent := ihc (fun x hx => h x (by simp [hx])) (p.advance (before ++ tag.source))
      have hrest := ihr (fun x hx => h x (by simp [hx]))
        (p.advance (before ++ tag.source ++ content.source ++ endTagText tag.name))
      rw [matchesFrom, elements_element, List.map_cons, List.map_cons, List.map_append,
        List.map_append, hthis, hcontent, hrest]

/-- Every match stands in the source at the position of its tag. -/
theorem exists_source_of_mem_matchesFrom {d : Document} {p : Position} {m : Match}
    (hm : m ∈ d.matchesFrom p) :
    ∃ pre post, d.source = pre ++ m.outer ++ post ∧ m.tag.position = p.advance pre := by
  induction d generalizing p with
  | text s => simp [matchesFrom] at hm
  | element before tag content rest ihc ihr =>
      simp only [matchesFrom, List.mem_cons, List.mem_append] at hm
      rcases hm with rfl | hm | hm
      · exact ⟨before, rest.source, by simp [source, Match.outer, OpenTag.matchAt], rfl⟩
      · obtain ⟨pre, post, hsource, hposition⟩ := ihc hm
        refine ⟨before ++ tag.source ++ pre, post ++ endTagText tag.name ++ rest.source, ?_, ?_⟩
        · simp [source, hsource]
        · rw [hposition, ← Position.advance_append]
      · obtain ⟨pre, post, hsource, hposition⟩ := ihr hm
        refine ⟨before ++ tag.source ++ content.source ++ endTagText tag.name ++ pre, post, ?_, ?_⟩
        · simp [source, hsource]
        · rw [hposition, ← Position.advance_append]

/-- A name in small letters selects the matches of that name. -/
theorem WellFormed.selected_ofName {d : Document} (h : d.WellFormed) {name : Text}
    (hname : name.map CodePoint.toLower = name) (p : Position) :
    d.selected (.ofName name) p = (d.matchesFrom p).filter (·.tag.name = name) := by
  refine List.filter_congr fun m hm => ?_
  obtain ⟨x, hx, q, rfl⟩ := exists_of_mem_matchesFrom hm
  exact (h.tag_of_mem x hx).selectedBy_ofName hname

end Document

/-! ## Names as selectors -/

/-- The name of an element is read as the selector of that name, when it has no marks that mean
something else in a selector. -/
theorem parse?_name {name : Text} (h : isElementName name = true)
    (hchars : name.all Selector.isNameChar = true) :
    Selector.parse? name = some (.ofName name) := by
  obtain ⟨c, n, rfl, hc⟩ := exists_cons_of_isElementName h
  have hall : ∀ x ∈ c :: n, Selector.isNameChar x = true := List.all_eq_true.1 hchars
  have htake : (c :: n).takeWhile Selector.isNameChar = c :: n := List.takeWhile_eq_self_iff.2 hall
  have hdrop : (c :: n).dropWhile Selector.isNameChar = [] := List.dropWhile_eq_nil_iff.2 hall
  rw [Selector.parse?.eq_def]
  split
  · rename_i e
    rw [(List.cons.inj e).1] at hc
    exact absurd hc (by decide)
  · rw [htake, hdrop]
    rfl

/-! ## Capturing -/

/-- The elements of a name in a plain document are captured one by one, in the order of their
start tags, each at its own place and in its own parts. -/
theorem matchesIn_captures {d : Document} (hd : d.Plain)
    (hattrs : ∀ x ∈ d.elements, (Table.names x.1.pairs).Nodup) {name : Text}
    (hname : isElementName name = true) :
    (∃ ms, matchesIn d.source (.ofName name) none = .ok ms ∧
        ms.map Match.capture = (d.elements.filter (·.1.name = name)).map captureOf ∧
        ∀ m ∈ ms, ∃ pre post,
          d.source = pre ++ m.outer ++ post ∧ m.tag.position = Position.origin.advance pre) ∧
      (name.all Selector.isNameChar = true → Selector.parse? name = some (.ofName name)) := by
  have hmatches : matchesIn d.source (.ofName name) none
      = .ok ((d.matchesFrom .origin).filter (·.tag.name = name)) := by
    rw [hd.wellFormed.matchesIn_all,
      hd.wellFormed.selected_ofName (map_toLower_of_isElementName hname)]
  refine ⟨⟨_, hmatches, ?_, ?_⟩, parse?_name hname⟩
  · -- a match is kept for its name, and so is what it captures
    have hkeep : ∀ ms : List Match, (ms.filter (·.tag.name = name)).map Match.capture
        = (ms.map Match.capture).filter (·.name = name) := by
      intro ms
      rw [List.filter_map]
      rfl
    have hkeep' : ∀ xs : List (OpenTag × Document), (xs.filter (·.1.name = name)).map captureOf
        = (xs.map captureOf).filter (·.name = name) := by
      intro xs
      rw [List.filter_map]
      rfl
    rw [hkeep, Document.map_capture_matchesFrom hattrs, hkeep']
  · intro m hm
    exact Document.exists_source_of_mem_matchesFrom (List.mem_filter.1 hm).1

/-- Two elements of a name inside each other, over two lines, and a third one like the second. -/
def nestedDivs : Document :=
  .element "a\n".text ⟨"div".text, [⟨"\n ".text, "Id".text, "x".text⟩], " ".text⟩
    (.element [] (.bare "div".text) (.text "b".text)
      (.element [] (.bare "p".text) (.text []) (.text [])))
    (.element "\n".text (.bare "div".text) (.text "b".text) (.text "c".text))

theorem matchesIn_captures_nestedDivs :
    nestedDivs.source = "a\n<div\n Id=\"x\" ><div>b</div><p></p></div>\n<div>b</div>c".text ∧
      nestedDivs.Plain ∧ (∀ x ∈ nestedDivs.elements, (Table.names x.1.pairs).Nodup) ∧
      isElementName "div".text = true ∧
      ∃ ms, matchesIn nestedDivs.source (.ofName "div".text) none = .ok ms ∧
        ms.map Match.capture =
        [⟨"div".text, [("id".text, "x".text)], "<div\n Id=\"x\" >".text,
            "<div>b</div><p></p>".text, "</div>".text,
            "<div\n Id=\"x\" ><div>b</div><p></p></div>".text⟩,
          ⟨"div".text, [], "<div>".text, "b".text, "</div>".text, "<div>b</div>".text⟩,
          ⟨"div".text, [], "<div>".text, "b".text, "</div>".text,
            "<div>b</div>".text⟩] := by
  have hplain : nestedDivs.Plain := by decide +kernel
  have hattrs : ∀ x ∈ nestedDivs.elements, (Table.names x.1.pairs).Nodup := by decide +kernel
  have hname : isElementName "div".text = true := by decide
  obtain ⟨ms, hms, hcaptures, -⟩ := (matchesIn_captures hplain hattrs hname).1
  exact ⟨by decide, hplain, hattrs, hname, ms, hms, hcaptures.trans (by decide +kernel)⟩

end Stencil.Html
