import Stencil.Proofs.Document.Edit

set_option autoImplicit false

/-! # Sources without elements that close themselves

Writing out end tags leaves a source as it is exactly when no custom element closes itself in
it: an element that does loses its slash. Such a source may be followed by any text that cannot
finish a `/>`.
-/

namespace Stencil.Html

open Text

theorem eq_of_cutSelfClosing? {quote : Option CodePoint} {s front rest : Text}
    (h : cutSelfClosing? quote s = some (front, rest)) :
    s = front ++ [char '/', char '>'] ++ rest := by
  fun_induction cutSelfClosing? quote s generalizing front rest with
  | case1 quote => cases h
  | case2 c s q ih =>
      obtain ⟨⟨front', rest'⟩, h', e⟩ := Option.map_eq_some_iff.1 h
      cases e
      simp [ih h']
  | case3 s => cases h
  | case4 c s hc hslash =>
      cases h
      simp only [Bool.and_eq_true, decide_eq_true_eq, beq_iff_eq] at hslash
      obtain ⟨rfl, hhead⟩ := hslash
      obtain ⟨t, rfl⟩ := List.head?_eq_some_iff.1 hhead
      rfl
  | case5 c s hc hslash ih =>
      obtain ⟨⟨front', rest'⟩, h', e⟩ := Option.map_eq_some_iff.1 h
      cases e
      simp [ih h']

/-- An element that closes itself, as it stands in the source. -/
theorem eq_of_readSelfClosing? {s name attrs rest : Text}
    (h : readSelfClosing? s = some (name, attrs, rest)) :
    s = char '<' :: (name ++ attrs ++ [char '/', char '>'] ++ rest) := by
  unfold readSelfClosing? at h
  split at h
  · rename_i t
    dsimp only at h
    split at h
    · obtain ⟨⟨attrs', rest'⟩, hcut, e⟩ := Option.map_eq_some_iff.1 h
      cases e
      have hdrop := eq_of_cutSelfClosing? hcut
      have htake := List.prefix_iff_eq_take.1 (List.takeWhile_prefix isMarkNameChar (l := t))
      calc char '<' :: t
          = char '<' :: (t.take (t.takeWhile isMarkNameChar).length
              ++ t.drop (t.takeWhile isMarkNameChar).length) := by rw [List.take_append_drop]
        _ = _ := by rw [← htake, hdrop]; simp
    · cases h
  · cases h

/-! ## Nothing to write out -/

/-- The name of a custom element has a dash. -/
theorem readSelfClosing?_of_not_mem {s : Text} (h : char '-' ∉ s) : readSelfClosing? s = none := by
  unfold readSelfClosing?
  split
  · rename_i t
    have hname : (t.takeWhile isMarkNameChar).elem (char '-') = false := by
      rw [Bool.eq_false_iff]
      intro hm
      exact h (List.mem_cons_of_mem _ ((List.takeWhile_subset _) (List.elem_iff.1 hm)))
    simp only [hname, Bool.and_false, Bool.false_eq_true, if_false]
  · rfl

theorem expandFrom_cons_of_none {c : CodePoint} {s : Text} (h : readSelfClosing? (c :: s) = none) :
    expandFrom 0 (c :: s) = c :: expandFrom 0 s := by
  rw [expandFrom, h]

/-- Writing out an end tag changes the source: the slash of the start tag goes. -/
theorem expandFrom_ne_of_some {c : CodePoint} {s name attrs rest : Text}
    (h : readSelfClosing? (c :: s) = some (name, attrs, rest)) :
    expandFrom 0 (c :: s) ≠ c :: s := by
  intro e
  obtain ⟨blanks, hblank, hattrs⟩ := exists_blank_trimRight attrs
  have hs := eq_of_readSelfClosing? h
  rw [expandFrom, h] at e
  simp only at e
  conv_rhs at e => rw [hs, hattrs]
  simp only [List.cons_append, List.nil_append, List.append_assoc, List.cons.injEq, true_and,
    List.append_cancel_left_eq] at e
  -- behind the attributes stands a `>` on the left, and a blank or the slash on the right
  cases blanks with
  | nil => exact absurd (List.cons.inj e).1 (by decide)
  | cons b blanks =>
      have hb := hblank b (by simp)
      rw [← (List.cons.inj e).1] at hb
      exact absurd hb (by decide)

/-- Writing out end tags leaves a source as it is exactly when no element closes itself. -/
theorem expandSelfClosing_eq_self_iff {s : Text} :
    expandSelfClosing s = s ↔ ∀ b, b <:+ s → readSelfClosing? b = none := by
  rw [expandSelfClosing]
  induction s with
  | nil =>
      refine iff_of_true rfl fun b hb => ?_
      rw [List.suffix_nil.1 hb]
      rfl
  | cons c s ih =>
      cases h : readSelfClosing? (c :: s) with
      | some found =>
          refine iff_of_false (expandFrom_ne_of_some h) fun hall => ?_
          rw [hall _ List.suffix_rfl] at h
          cases h
      | none =>
          rw [expandFrom_cons_of_none h, List.cons_inj_right, ih]
          constructor
          · intro hall b hb
            rcases List.suffix_cons_iff.1 hb with rfl | hb
            exacts [h, hall b hb]
          · exact fun hall b hb => hall b (hb.trans (List.suffix_cons c s))

/-! ## More text behind a source -/

theorem cutSelfClosing?_eq_none_of_contains {s : Text} (h : contains s ['/', '>'] = false)
    (quote : Option CodePoint) : cutSelfClosing? quote s = none := by
  rw [Option.eq_none_iff_forall_ne_some]
  rintro ⟨front, rest⟩ hcut
  rw [(contains_iff s _).2 ⟨front, rest, eq_of_cutSelfClosing? hcut⟩] at h
  cases h

theorem cutSelfClosing?_append {quote : Option CodePoint} {s r : Text}
    (hs : cutSelfClosing? quote s = none) (hr : contains r ['/', '>'] = false)
    (hhead : r.head? ≠ some (char '>')) : cutSelfClosing? quote (s ++ r) = none := by
  fun_induction cutSelfClosing? quote s with
  | case1 quote => exact cutSelfClosing?_eq_none_of_contains hr quote
  | case2 c s q ih =>
      rw [Option.map_eq_none_iff] at hs
      rw [List.cons_append, cutSelfClosing?]
      simp only [ih hs, Option.map_none]
  | case3 s =>
      rw [List.cons_append, cutSelfClosing?]
      rfl
  | case4 c s hc hslash => cases hs
  | case5 c s hc hslash ih =>
      rw [Option.map_eq_none_iff] at hs
      have hslash' : ¬ (c = '/' && (s ++ r).head? == some (char '>')) = true := by
        cases s with
        | nil => simp [hhead]
        | cons d s => simpa using hslash
      rw [List.cons_append, cutSelfClosing?]
      simp only [if_neg hc, if_neg hslash', ih hs, Option.map_none]

theorem readSelfClosing?_append {s r : Text} (hne : s ≠ []) (hs : readSelfClosing? s = none)
    (hr : contains ('<' :: r) ['/', '>'] = false) :
    readSelfClosing? (s ++ char '<' :: r) = none := by
  obtain ⟨c, s, rfl⟩ := List.exists_cons_of_ne_nil hne
  by_cases hc : c = '<'
  · subst hc
    have hname := (takeWhile_append_stop (p := isMarkNameChar) (c := '<') (by decide) s r).1
    have hlength : (s.takeWhile isMarkNameChar).length ≤ s.length :=
      (List.takeWhile_prefix _).length_le
    have hhead : ((s ++ char '<' :: r).head?.map CodePoint.isAlpha).getD false
        = (s.head?.map CodePoint.isAlpha).getD false := by
      cases s with
      | nil => rfl
      | cons d s => rfl
    rw [readSelfClosing?] at hs
    rw [List.cons_append, readSelfClosing?, hname, hhead, List.drop_append_of_le_length hlength]
    simp only at hs ⊢
    split
    · rename_i hopens
      rw [if_pos hopens, Option.map_eq_none_iff] at hs
      rw [cutSelfClosing?_append hs hr (by simp), Option.map_none]
    · rfl
  · exact readSelfClosing?_of_ne _ hc

/-- Two sources without elements that close themselves make another one, when the second begins
with a tag and holds no `/>`. -/
theorem expandSelfClosing_append {s r : Text} (hs : expandSelfClosing s = s)
    (hr : expandSelfClosing ('<' :: r) = char '<' :: r)
    (hclose : contains ('<' :: r) ['/', '>'] = false) :
    expandSelfClosing (s ++ char '<' :: r) = s ++ char '<' :: r := by
  rw [expandSelfClosing_eq_self_iff] at hs hr ⊢
  rintro b ⟨a, hb⟩
  rcases List.append_eq_append_iff.1 hb with ⟨b', hsplit, rfl⟩ | ⟨a', -, hsplit⟩
  · by_cases hne : b' = []
    · rw [hne]
      exact hr _ List.suffix_rfl
    · exact readSelfClosing?_append hne (hs b' ⟨a, hsplit.symm⟩) hclose
  · exact hr b ⟨a', hsplit.symm⟩

end Stencil.Html
