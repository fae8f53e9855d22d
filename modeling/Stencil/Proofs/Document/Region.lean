import Stencil.Html.Region
import Stencil.Proofs.Document.Tokens

set_option autoImplicit false

/-! # The region of an element of a document

In front of the source of a well-formed element, the region is the source of that element: the
marks of its content are balanced, so the count of open elements is back at zero when its own
end tag comes.
-/

namespace Stencil.Html

open Text

/-! ## Passing over marks -/

theorem marksFrom_append (s r : Text) (index : Nat) :
    marksFrom s.length index (s ++ r) = marksFrom 0 (index + s.length) r := by
  induction s generalizing index with
  | nil => rfl
  | cons c s ih =>
      rw [List.length_cons, List.cons_append, marksFrom, ih]
      congr 1
      omega

theorem commentLength?_cons_of_ne {c : CodePoint} (s : Text) (h : c ≠ '!') :
    commentLength? ('<' :: c :: s) = none := by
  have h' : ¬ '!' = c := fun e => h e.symm
  simp [commentLength?, after?, h']

/-- Text without `<` holds no mark. -/
theorem marksFrom_of_not_mem {s : Text} (h : char '<' ∉ s) (r : Text) (index : Nat) :
    marksFrom 0 index (s ++ r) = marksFrom 0 (index + s.length) r := by
  induction s generalizing index with
  | nil => rfl
  | cons c s ih =>
      have hc : '<' ≠ c := fun e => h (e ▸ List.mem_cons_self)
      have hs : char '<' ∉ s := fun e => h (List.mem_cons_of_mem c e)
      have hread : readMark? index (c :: (s ++ r)) = none := by
        unfold readMark?
        split
        · rename_i e
          exact absurd (List.cons.inj e).1.symm hc
        · rfl
      have hcomment : commentLength? (c :: (s ++ r)) = none := by
        simp [commentLength?, after?, hc]
      rw [List.cons_append, marksFrom, hcomment, hread]
      simp only
      rw [ih hs, List.length_cons]
      congr 1
      omega

theorem not_mem_of_isRunning {s : Text} (h : IsRunning s) : char '<' ∉ s := fun hm =>
  absurd (h _ hm) (by decide)

theorem marksFrom_source {t : OpenTag} (h : t.WellFormed) (index : Nat) (r : Text) :
    marksFrom 0 index (t.source ++ r)
      = ⟨index, index + t.source.length, t.name, false, false⟩ ::
          marksFrom 0 (index + t.source.length) r := by
  obtain ⟨c, n, hn, hc⟩ := exists_cons_of_isElementName h.name
  have hread := readMark?_source h index r
  have hcomment : commentLength? ('<' :: (t.inside ++ [char '>'] ++ r)) = none := by
    rw [OpenTag.inside, hn]
    refine commentLength?_cons_of_ne _ ?_
    rintro rfl
    exact absurd hc (by decide)
  have hcons : t.source ++ r = char '<' :: (t.inside ++ [char '>'] ++ r) := by simp [OpenTag.source]
  have hlen : t.source.length = (t.inside ++ [char '>']).length + 1 := by simp [OpenTag.source]
  have hskip : index + t.source.length - index - 1 = (t.inside ++ [char '>']).length := by omega
  rw [hcons] at hread ⊢
  rw [marksFrom, hcomment, hread]
  simp only
  rw [hskip, marksFrom_append, hlen]
  congr 2
  omega

theorem marksFrom_endTagText {name : Text} (h : isElementName name = true) (index : Nat)
    (r : Text) :
    marksFrom 0 index (endTagText name ++ r)
      = ⟨index, index + (endTagText name).length, name, true, false⟩ ::
          marksFrom 0 (index + (endTagText name).length) r := by
  have hread := readMark?_endTagText h index r
  have hcomment : commentLength? ('<' :: char '/' :: (name ++ [char '>'] ++ r)) = none :=
    commentLength?_cons_of_ne _ (by decide)
  have hcons : endTagText name ++ r = char '<' :: (char '/' :: (name ++ [char '>']) ++ r) := by
    simp [endTagText]
  have hlen : (endTagText name).length = (char '/' :: (name ++ [char '>'])).length + 1 := by
    simp [endTagText]
  have hskip : index + (endTagText name).length - index - 1
      = (char '/' :: (name ++ [char '>'])).length := by
    omega
  rw [hcons] at hread ⊢
  rw [marksFrom,
      show commentLength? ('<' :: (char '/' :: (name ++ [char '>']) ++ r)) = none from hcomment,
    hread]
  simp only
  rw [hskip, marksFrom_append, hlen]
  congr 2
  omega

/-! ## The end tag of an element -/

/-- Whether a text, read as marks, leaves the depth as it is at which an end tag is looked for. -/
def IsBalanced (name s : Text) : Prop :=
  ∀ (depth index : Nat) (r : Text), endMark? name depth (marksFrom 0 index (s ++ r))
    = endMark? name depth (marksFrom 0 (index + s.length) r)

theorem isBalanced_of_not_mem (name : Text) {s : Text} (h : char '<' ∉ s) : IsBalanced name s :=
  fun depth index r => by rw [marksFrom_of_not_mem h]

theorem IsBalanced.append {name s t : Text} (hs : IsBalanced name s) (ht : IsBalanced name t) :
    IsBalanced name (s ++ t) := by
  intro depth index r
  rw [List.append_assoc, hs, ht, List.length_append, Nat.add_assoc]

theorem endMark?_open {name n : Text} (hn : lower n = n) (depth i j : Nat) (ms : List Mark) :
    endMark? name depth (⟨i, j, n, false, false⟩ :: ms)
      = endMark? name (if n = name then depth + 1 else depth) ms := by
  rw [endMark?.eq_def]
  by_cases h : n = name
  · subst h
    simp [hn]
  · simp [hn, h]

theorem endMark?_close {name n : Text} (hn : lower n = n) (depth i j : Nat) (ms : List Mark) :
    endMark? name (if n = name then depth + 1 else depth) (⟨i, j, n, true, false⟩ :: ms)
      = endMark? name depth ms := by
  rw [endMark?.eq_def]
  by_cases h : n = name
  · subst h
    simp [hn]
  · simp [hn, h]

/-- A start tag of another name is balanced, whether something closes it or not. -/
theorem isBalanced_source {name : Text} {t : OpenTag} (h : t.WellFormed) (hn : t.name ≠ name) :
    IsBalanced name t.source := by
  intro depth index r
  rw [marksFrom_source h, endMark?_open (lower_eq_self h.name), if_neg hn]

/-- An element around a balanced text is balanced. -/
theorem isBalanced_element (name : Text) {t : OpenTag} (h : t.WellFormed) {s : Text}
    (hs : IsBalanced name s) : IsBalanced name (t.source ++ s ++ endTagText t.name) := by
  intro depth index r
  rw [List.append_assoc, List.append_assoc, marksFrom_source h,
    endMark?_open (lower_eq_self h.name), hs, marksFrom_endTagText h.name,
    endMark?_close (lower_eq_self h.name)]
  simp [Nat.add_assoc]

/-- The marks of a document are balanced. -/
theorem Document.WellFormed.isBalanced {d : Document} (h : d.WellFormed) (name : Text) :
    IsBalanced name d.source := by
  induction h with
  | text hs => exact isBalanced_of_not_mem name (not_mem_of_isRunning hs)
  | element hb ht hn hc hrest ihc ihr =>
      have key := ((isBalanced_of_not_mem name (not_mem_of_isRunning hb)).append
        (isBalanced_element name ht ihc)).append ihr
      simpa [Document.source] using key
  | raw hb ht hn hcss hrest ihr =>
      have key := ((isBalanced_of_not_mem name (not_mem_of_isRunning hb)).append
        (isBalanced_element name ht (isBalanced_of_not_mem name hcss))).append ihr
      simpa [Document.source] using key

/-- The first end tag at depth zero behind the content of an element is its own. -/
theorem endMark?_content {name s : Text} (hname : isElementName name = true)
    (hs : IsBalanced name s) (r : Text) :
    endMark? name 0 (marks (s ++ endTagText name ++ r))
      = some ⟨s.length, s.length + (endTagText name).length, name, true, false⟩ := by
  rw [marks, List.append_assoc, hs, marksFrom_endTagText hname, endMark?.eq_def, Nat.zero_add]
  simp [lower_eq_self hname]

theorem cutAt?_rawEnd {name css : Text} (hname : name ∈ RawText.names) (h : char '<' ∉ css)
    (r : Text) :
    cutAt? (RawText.afterEndTag? name) (css ++ (endTagText name ++ r))
      = some (css, endTagText name, r) := by
  have hend : RawText.afterEndTag? name (endTagText name ++ r) = some r := by
    simp only [RawText.names, List.mem_cons, List.not_mem_nil, or_false] at hname
    rcases hname with rfl | rfl <;> rfl
  have key := cutAt?_append (s := css) ?_ hend (by simp [endTagText])
  · rwa [take_length_sub] at key
  · intro a b hab hb
    cases b with
    | nil => exact absurd rfl hb
    | cons c b =>
        have hc : '<' ≠ c := by
          rintro rfl
          exact h (by simp [hab])
        rw [List.cons_append, RawText.afterEndTag?, after?_cons_of_ne _ _ hc]
        rfl

/-! ## Regions -/

theorem OpenTag.WellFormed.not_mem_voidNames {t : OpenTag} (h : t.WellFormed) :
    voidNames.elem t.name = false := by
  rw [List.elem_eq_mem, decide_eq_false_iff_not]
  exact h.not_void

/-- The region of an element whose content is balanced, whatever its attributes hold. -/
theorem region?_delimited {t : OpenTag} (h : t.IsDelimited) (hopen : t.closesItself = false)
    (hvoid : t.name ∉ voidNames) (hraw : t.name ∉ RawText.names) {s : Text}
    (hs : IsBalanced t.name s) (r : Text) :
    region? t.name (t.source ++ (s ++ endTagText t.name ++ r))
      = some ⟨t.source, s, endTagText t.name⟩ := by
  have hvoid' : voidNames.elem t.name = false := by simpa using hvoid
  have hraw' : RawText.names.elem t.name = false := by simpa using hraw
  rw [region?, startText?_source h, Option.map_some]
  simp only [hvoid', endsWith_source h, hopen, Bool.or_self, Bool.false_eq_true, if_false, hraw',
    endMark?_content h.name hs]
  simp [List.append_assoc]

/-- The region of an element whose content is balanced. -/
theorem region?_element {t : OpenTag} (h : t.WellFormed) (hn : t.name ∉ RawText.names) {s : Text}
    (hs : IsBalanced t.name s) (r : Text) :
    region? t.name (t.source ++ (s ++ endTagText t.name ++ r))
      = some ⟨t.source, s, endTagText t.name⟩ :=
  region?_delimited h.isWritten.isDelimited h.closesItself_eq_false h.not_void hn hs r

/-- The region of a script or a style sheet. -/
theorem region?_raw {t : OpenTag} (h : t.WellFormed) (hn : t.name ∈ RawText.names) {css : Text}
    (hcss : char '<' ∉ css) (r : Text) :
    region? t.name (t.source ++ (css ++ endTagText t.name ++ r))
      = some ⟨t.source, css, endTagText t.name⟩ := by
  have hraw : RawText.names.elem t.name = true := by
    rw [List.elem_eq_mem, decide_eq_true_iff]
    exact hn
  have hvoid := h.not_mem_voidNames
  rw [region?, startText?_source h.isWritten.isDelimited, Option.map_some]
  simp only [hvoid, endsWith_source h.isWritten.isDelimited, h.closesItself_eq_false, Bool.or_self,
    Bool.false_eq_true, if_false, hraw, if_true, List.append_assoc, cutAt?_rawEnd hn hcss]

end Stencil.Html
