import Stencil.Proofs.Document.Quiet

set_option autoImplicit false

/-! # Texts without leftovers

Elements of a name are also found by their look: a start tag, running text, and the end tag. Such
an element can lie across the border of two texts, so it is not enough that neither text holds one.
A text is sealed when nothing in it looks like an element, it does not begin by closing one, and it
does not break off within an end tag. Sealed texts can be put one behind the other.
-/

namespace Stencil.Html

open Text

variable {name s t : Text}

/-! ## What looks like an element -/

/-- Whether a text begins with what looks like an element of a name that holds running text. -/
def BeginsElement (name s : Text) : Prop :=
  ∃ u r, s = char '<' :: (name ++ u) ++ endTagText name ++ r ∧ char '<' ∉ u ∧ char '>' ∈ u

/-- Whether the first tag of a text is the end tag of a name. -/
def ClosesFirst (name s : Text) : Prop := ∃ u r, s = u ++ endTagText name ++ r ∧ char '<' ∉ u

theorem beginsElement_iff : BeginsElement name s ↔
    ∃ rest, ((after? ('<' :: name) s).bind fun r =>
      if (r.takeWhile (· != char '<')).elem (char '>')
          then after? (endTagText name) (r.dropWhile (· != char '<'))
      else none) = some rest := by
  constructor
  · rintro ⟨u, r, rfl, hlt, hgt⟩
    have hplain := forall_bne_of_not_mem hlt
    have hfront : after? (char '<' :: name) (char '<' :: (name ++ u) ++ endTagText name ++ r)
        = some (u ++ char '<' :: (char '/' :: (name ++ char '>' :: r))) := by
      rw [after?_eq_some_iff]
      simp [endTagText]
    have hend :
        after? (endTagText name) ('<' :: (char '/' :: (name ++ char '>' :: r))) = some r := by
      rw [after?_eq_some_iff]
      simp [endTagText]
    refine ⟨r, ?_⟩
    rw [hfront, Option.bind_some, takeWhile_append_cons _ hplain (by decide),
      dropWhile_append_cons _ hplain (by decide), hend, List.elem_eq_mem, decide_eq_true hgt, if_pos rfl]
  · rintro ⟨rest, h⟩
    obtain ⟨r, hr, h⟩ := Option.bind_eq_some_iff.1 h
    split at h
    · rename_i hgt
      have hrest := (after?_eq_some_iff _ _ _).1 h
      refine ⟨r.takeWhile (· != '<'), rest, ?_, ?_, List.elem_iff.1 hgt⟩
      · calc s = char '<' :: name ++ r := (after?_eq_some_iff _ _ _).1 hr
          _ = char '<' :: name ++ (r.takeWhile (· != char '<') ++ r.dropWhile (· != char '<')) := by
              rw [List.takeWhile_append_dropWhile]
          _ = _ := by rw [hrest]; simp
      · intro hm
        simpa using List.mem_takeWhile_imp hm
    · cases h

/-- A text leaves nothing over exactly when nothing in it looks like an element. -/
theorem leftovers_eq_nil_iff : leftovers name s = [] ↔ ∀ b, b <:+ s → ¬ BeginsElement name b := by
  rw [leftovers]
  induction s with
  | nil =>
      refine iff_of_true rfl fun b hb => ?_
      rw [List.suffix_nil.1 hb]
      rintro ⟨u, r, e, -⟩
      cases e
  | cons c s ih =>
      have hhere := @beginsElement_iff name (c :: s)
      rw [leftoversFrom]
      split
      · rename_i rest hrest
        refine iff_of_false (by simp) fun h => ?_
        exact h _ List.suffix_rfl (hhere.2 ⟨rest, hrest⟩)
      · rename_i hnone
        have hnot : ¬ BeginsElement name (c :: s) := by
          rw [hhere, hnone]
          simp
        rw [ih]
        constructor
        · intro h b hb
          rcases List.suffix_cons_iff.1 hb with rfl | hb
          exacts [hnot, h b hb]
        · exact fun h b hb => h b (hb.trans (List.suffix_cons c s))

/-! ## Sealed texts -/

/-- Whether elements of a name neither stand in a text nor lie across its borders: what looks like
one does not stand in it, its first tag does not close one, and it does not end within an end tag. -/
structure Sealed (name s : Text) : Prop where
  element : ∀ b, b <:+ s → ¬ BeginsElement name b
  closing : ¬ ClosesFirst name s
  ending : ∀ b r, b <:+ s → b ≠ [] → r ≠ [] → endTagText name ≠ b ++ r

/-- An end tag in two texts stands in the second one, stands in the first one, or lies across the
border. -/
theorem endTag_of_append {u r : Text} (h : s ++ t = u ++ endTagText name ++ r) (hu : char '<' ∉ u) :
    ClosesFirst name t ∨ (∃ x, s = u ++ endTagText name ++ x) ∨
      ∃ b x, b <:+ s ∧ b ≠ [] ∧ x ≠ [] ∧ endTagText name = b ++ x := by
  rw [List.append_assoc] at h
  rcases List.append_eq_append_iff.1 h with ⟨v, rfl, ht⟩ | ⟨v, hs, hrest⟩
  · have hv : char '<' ∉ v := fun hm => hu (List.mem_append_right s hm)
    exact Or.inl ⟨v, r, by rw [ht, List.append_assoc], hv⟩
  · rcases List.append_eq_append_iff.1 hrest with ⟨x, rfl, -⟩ | ⟨x, hend, ht⟩
    · exact Or.inr (Or.inl ⟨x, by rw [hs, List.append_assoc]⟩)
    · by_cases hv : v = []
      · refine Or.inl ⟨[], r, ?_, List.not_mem_nil⟩
        rw [ht, hend, hv, List.nil_append, List.nil_append]
      · by_cases hx : x = []
        · exact Or.inr (Or.inl ⟨[], by rw [hs, hend, hx]; simp⟩)
        · exact Or.inr (Or.inr ⟨v, x, ⟨u, hs.symm⟩, hv, hx, hend⟩)

namespace Sealed

/-- An element that begins in a sealed text does not end behind it, unless the text there closes it. -/
theorem not_beginsElement_append (hs : Sealed name s) (hname : char '<' ∉ name)
    (ht : ¬ ClosesFirst name t) {b : Text} (hb : b <:+ s) (hne : b ≠ []) :
    ¬ BeginsElement name (b ++ t) := by
  rintro ⟨u, r, e, hlt, hgt⟩
  obtain ⟨c, b, rfl⟩ := List.exists_cons_of_ne_nil hne
  obtain ⟨rfl, e⟩ := List.cons.inj e
  have htail : b <:+ s := (List.suffix_cons _ b).trans hb
  have hfront : char '<' ∉ name ++ u := fun hm => (List.mem_append.1 hm).elim hname hlt
  rcases endTag_of_append (by simpa using e) hfront with h | ⟨x, rfl⟩ | ⟨v, x, hv, hvne, hx, hend⟩
  · exact ht h
  · exact hs.element _ hb ⟨u, x, by simp, hlt, hgt⟩
  · exact hs.ending v x (hv.trans htail) hvne hx hend

theorem append (hs : Sealed name s) (ht : Sealed name t) (hname : char '<' ∉ name) :
    Sealed name (s ++ t) where
  element := by
    rintro b ⟨a, hab⟩
    rcases List.append_eq_append_iff.1 hab with ⟨b', rfl, rfl⟩ | ⟨a', -, htb⟩
    · by_cases hne : b' = []
      · rw [hne]
        exact ht.element _ List.suffix_rfl
      · exact hs.not_beginsElement_append hname ht.closing ⟨a, rfl⟩ hne
    · exact ht.element b ⟨a', htb.symm⟩
  closing := by
    rintro ⟨u, r, e, hu⟩
    rcases endTag_of_append e hu with h | ⟨x, rfl⟩ | ⟨v, x, hv, hne, hx, hend⟩
    · exact ht.closing h
    · exact hs.closing ⟨u, x, rfl, hu⟩
    · exact hs.ending v x hv hne hx hend
  ending := by
    rintro b r ⟨a, hab⟩ hne hr hend
    rcases List.append_eq_append_iff.1 hab with ⟨b', rfl, rfl⟩ | ⟨a', -, htb⟩
    · by_cases hb' : b' = []
      · subst hb'
        exact ht.ending _ r List.suffix_rfl hne hr hend
      · refine hs.ending b' (t ++ r) ⟨a, rfl⟩ hb' (by simp [hr]) ?_
        rw [hend, List.append_assoc]
    · exact ht.ending b r ⟨a', htb.symm⟩ hne hr hend

theorem leftovers_eq_nil (h : Sealed name s) : leftovers name s = [] := leftovers_eq_nil_iff.2 h.element

end Sealed

/-! ## Running text and tags -/

/-- A text that begins with a tag closes nothing first, unless that is an end tag. -/
theorem not_closesFirst_cons {c : CodePoint} (hc : c ≠ '/') (r : Text) :
    ¬ ClosesFirst name ('<' :: c :: r) := by
  rintro ⟨u, q, e, hu⟩
  cases u with
  | nil => exact hc (List.cons.inj (List.cons.inj e).2).1
  | cons d u =>
      obtain rfl : '<' = d := (List.cons.inj e).1
      exact hu List.mem_cons_self

theorem sealed_of_not_mem (h : char '<' ∉ s) : Sealed name s where
  element := by
    rintro b hb ⟨u, r, rfl, -⟩
    exact h (hb.subset (by simp))
  closing := by
    rintro ⟨u, r, rfl, -⟩
    exact h (by simp [endTagText])
  ending := by
    intro b r hb hne _ hend
    obtain ⟨c, b, rfl⟩ := List.exists_cons_of_ne_nil hne
    obtain rfl : '<' = c := (List.cons.inj hend).1
    exact h (hb.subset List.mem_cons_self)

/-- A text that ends a tag does not end within an end tag. -/
theorem ending_of_close {front : Text} (hname : char '>' ∉ name) {b r : Text}
    (hb : b <:+ front ++ [char '>']) (hne : b ≠ []) (hr : r ≠ []) : endTagText name ≠ b ++ r := by
  intro hend
  obtain ⟨b', rfl⟩ : ∃ b', b = b' ++ [char '>'] := by
    rcases List.eq_nil_or_concat b with rfl | ⟨b', c, rfl⟩
    · exact absurd rfl hne
    · obtain ⟨a, ha⟩ := hb
      rw [List.concat_eq_append, ← List.append_assoc] at ha
      obtain rfl := List.singleton_inj.1 (List.append_inj' ha rfl).2
      exact ⟨b', List.concat_eq_append⟩
  obtain ⟨r', c, rfl⟩ : ∃ r' c, r = r' ++ [c] := by
    rcases List.eq_nil_or_concat r with rfl | ⟨r', c, rfl⟩
    exacts [absurd rfl hr, ⟨r', c, List.concat_eq_append⟩]
  have hfront : [char '<', char '/'] ++ name = b' ++ [char '>'] ++ r' := by
    have hend' : [char '<', char '/'] ++ name ++ [char '>'] = b' ++ [char '>'] ++ r' ++ [c] := by
      rw [List.append_assoc (b' ++ [char '>'])]
      exact hend
    exact (List.append_inj' hend' rfl).1
  have hmem : char '>' ∈ [char '<', char '/'] ++ name := by
    rw [hfront]
    simp
  simp [hname] at hmem

/-- A tag that does not close an element of the name. -/
theorem sealed_tag {x : Text} (hname : char '>' ∉ name) (hlt : char '<' ∉ x) (hgt : char '>' ∉ x)
    (hx : x ≠ char '/' :: name) : Sealed name ([char '<'] ++ x ++ [char '>']) where
  element := by
    rintro b ⟨a, hab⟩ ⟨u, r, rfl, -⟩
    -- the end tag would be a second one
    have hcount := congrArg (List.count (char '<')) hab
    have hx₀ : List.count (char '<') x = 0 := List.count_eq_zero.2 hlt
    simp only [endTagText, List.count_append, List.count_cons, List.count_nil, hx₀] at hcount
    simp at hcount
    omega
  closing := by
    rintro ⟨u, r, e, hu⟩
    cases u with
    | nil =>
        have e' : x ++ char '>' :: [] = char '/' :: name ++ char '>' :: r := by
          simpa [endTagText] using e
        have hslash : char '>' ∉ char '/' :: name := by simpa using hname
        exact hx (append_cons_inj_of_not_mem hgt hslash e').1
    | cons c u =>
        obtain rfl : '<' = c := (List.cons.inj e).1
        exact hu List.mem_cons_self
  ending := fun b r hb hne hr => ending_of_close hname hb hne hr

/-- A text from `<` to `>` in which nothing looks like an element, when it does not begin with an
end tag. -/
theorem sealed_of_element (hname : char '>' ∉ name) {c : CodePoint} {r : Text} (hc : c ≠ '/')
    (hfirst : s = char '<' :: c :: r) (hlast : [char '>'] <:+ s)
    (helement : ∀ b, b <:+ s → ¬ BeginsElement name b) : Sealed name s where
  element := helement
  closing := hfirst ▸ not_closesFirst_cons hc r
  ending := by
    obtain ⟨front, rfl⟩ := hlast
    exact fun b r hb hne hr => ending_of_close hname hb hne hr

end Stencil.Html
