import Mathlib.Data.List.TakeWhile
import Mathlib.Tactic.Common
import Stencil.Text.Blank

set_option autoImplicit false

/-! # Searching in a text

What `after?`, `cut?`, `contains` and `replaceFirst` do on a text that is given in pieces. The
first occurrence of a pattern is known as soon as no occurrence begins in the piece in front
of it (`cut?_append`).
-/

namespace Stencil.Text

/-! ## Letters -/

theorem isLower_iff {c : CodePoint} : c.isLower = true ↔ 0x61 ≤ c.toNat ∧ c.toNat ≤ 0x7A := by
  cases c with
  | char c =>
      show (decide _ && decide _) = true ↔ _
      rw [Bool.and_eq_true, decide_eq_true_eq, decide_eq_true_eq]
      rfl
  | lone n =>
      refine iff_of_false Bool.false_ne_true fun h => absurd h.2 ?_
      show ¬ 0xD800 + n.val ≤ 0x7A
      omega

theorem isDigit_iff {c : CodePoint} : c.isDigit = true ↔ 0x30 ≤ c.toNat ∧ c.toNat ≤ 0x39 := by
  cases c with
  | char c =>
      show (decide _ && decide _) = true ↔ _
      rw [Bool.and_eq_true, decide_eq_true_eq, decide_eq_true_eq]
      rfl
  | lone n =>
      refine iff_of_false Bool.false_ne_true fun h => absurd h.2 ?_
      show ¬ 0xD800 + n.val ≤ 0x39
      omega

theorem isAlpha_of_isLower {c : CodePoint} (h : c.isLower = true) : c.isAlpha = true := by
  cases c with
  | char c =>
      show (c.isUpper || c.isLower) = true
      rw [show c.isLower = true from h, Bool.or_true]
  | lone n => cases h

/-! ## Patterns at the front -/

theorem after?_append (p r : Text) : after? p (p ++ r) = some r :=
  (after?_eq_some_iff _ _ _).2 rfl

theorem after?_eq_none_iff (p s : Text) : after? p s = none ↔ ∀ r, s ≠ p ++ r := by
  constructor
  · intro h r hr
    rw [(after?_eq_some_iff p s r).2 hr] at h
    cases h
  · intro h
    cases hs : after? p s with
    | none => rfl
    | some r => exact absurd ((after?_eq_some_iff p s r).1 hs) (h r)

theorem startsWith_iff (s p : Text) : startsWith s p = true ↔ p <+: s := by
  rw [startsWith, Option.isSome_iff_exists]
  exact exists_congr fun r => (after?_eq_some_iff p s r).trans eq_comm

theorem endsWith_iff (s p : Text) : endsWith s p = true ↔ p <:+ s := by
  rw [endsWith, startsWith_iff, List.reverse_prefix]

/-- A pattern does not stand where another character than its first one stands. -/
theorem after?_cons_of_ne {a c : CodePoint} (p s : Text) (h : a ≠ c) :
    after? (a :: p) (c :: s) = none := by
  simp [after?, h]

/-- A character that is not in a pattern stops it. -/
theorem after?_append_stop {p : Text} {c : CodePoint} (hc : c ∉ p) (s r : Text) :
    after? p (s ++ c :: r) = (after? p s).map (· ++ c :: r) := by
  induction p generalizing s with
  | nil => rfl
  | cons a p ih =>
      cases s with
      | nil => exact after?_cons_of_ne p r fun e => hc (e ▸ List.mem_cons_self)
      | cons d s =>
          rw [List.cons_append, after?, after?, ih (fun h => hc (List.mem_cons_of_mem a h))]
          split <;> rfl

theorem endsWith_append_singleton (s : Text) (c d : CodePoint) :
    endsWith (s ++ [c]) [d] = (d == c) := by
  by_cases h : d = c <;> simp [endsWith, startsWith, after?, h]

/-! ## First occurrences -/

/-- The first occurrence of a pattern, when none begins in the text in front of it. -/
theorem cut?_append {p pre post : Text}
    (h : ∀ a b, pre = a ++ b → b ≠ [] → after? p (b ++ p ++ post) = none) :
    cut? p (pre ++ p ++ post) = some (pre, post) := by
  induction pre with
  | nil =>
      cases p with
      | nil => cases post <;> simp [cut?, after?]
      | cons c p =>
          have hp := after?_append (c :: p) post
          rw [List.cons_append] at hp
          simp [cut?, hp]
  | cons c pre ih =>
      have hc := h [] (c :: pre) rfl (by simp)
      have hrest := ih fun a b hab hb => h (c :: a) b (by simp [hab]) hb
      simp only [List.cons_append] at hc ⊢
      rw [cut?, hc, hrest]
      rfl

theorem cut?_eq_none_iff (p s : Text) : cut? p s = none ↔ ∀ a b, s ≠ a ++ p ++ b := by
  induction s with
  | nil =>
      rw [cut?, Option.map_eq_none_iff, after?_eq_none_iff]
      constructor
      · intro h a b hab
        have hp : p = [] := by
          simp only [List.append_assoc, List.nil_eq, List.append_eq_nil_iff] at hab
          exact hab.2.1
        exact h [] (by simp [hp])
      · intro h r hr
        exact h [] r (by simpa using hr)
  | cons c s ih =>
      rw [cut?]
      cases hp : after? p (c :: s) with
      | some rest =>
          have hs := (after?_eq_some_iff _ _ _).1 hp
          simp only [reduceCtorEq, false_iff, not_forall]
          exact ⟨[], rest, by simpa using hs⟩
      | none =>
          rw [Option.map_eq_none_iff, ih]
          rw [after?_eq_none_iff] at hp
          constructor
          · intro h a b hab
            cases a with
            | nil => exact hp b (by simpa using hab)
            | cons x a =>
                simp only [List.cons_append, List.cons.injEq] at hab
                exact h a b hab.2
          · intro h a b hab
            exact h (c :: a) b (by simp [hab])

theorem contains_iff (s p : Text) : contains s p = true ↔ ∃ a b, s = a ++ p ++ b := by
  rw [contains, Option.isSome_iff_ne_none, ne_eq, cut?_eq_none_iff]
  simp

theorem contains_eq_false_iff (s p : Text) : contains s p = false ↔ ∀ a b, s ≠ a ++ p ++ b := by
  rw [← Bool.not_eq_true, contains_iff]
  simp

/-- A pattern with a character that a text lacks does not stand in the text. -/
theorem contains_eq_false_of_not_mem {s p : Text} {c : CodePoint} (hc : c ∈ p) (hs : c ∉ s) :
    contains s p = false := by
  rw [contains_eq_false_iff]
  rintro a b rfl
  exact hs (by simp [hc])

/-- A pattern does not stand in front of its first occurrence. -/
theorem length_le_of_cut? {p s front rest a b : Text} (h : cut? p s = some (front, rest))
    (hs : s = a ++ p ++ b) : front.length ≤ a.length := by
  induction s generalizing front a with
  | nil =>
      rw [cut?, Option.map_eq_some_iff] at h
      obtain ⟨r, -, e⟩ := h
      rw [← (Prod.mk.inj e).1]
      exact Nat.zero_le _
  | cons c s ih =>
      rw [cut?] at h
      split at h
      · rw [← (Prod.mk.inj (Option.some.inj h)).1]
        exact Nat.zero_le _
      · rename_i hnone
        obtain ⟨⟨f, r⟩, hcut, e⟩ := Option.map_eq_some_iff.1 h
        obtain ⟨rfl, rfl⟩ := Prod.mk.inj e
        cases a with
        | nil => exact absurd hs ((after?_eq_none_iff _ _).1 hnone b)
        | cons d a => exact Nat.succ_le_succ (ih hcut (List.cons.inj hs).2)

/-- A cut is made at the first place where the pattern stands. -/
theorem cut?_eq_some_iff {p s front rest : Text} : cut? p s = some (front, rest) ↔
    s = front ++ p ++ rest ∧ ∀ a b, s = a ++ p ++ b → front.length ≤ a.length := by
  constructor
  · exact fun h => ⟨eq_of_cut? h, fun a b => length_le_of_cut? h⟩
  · rintro ⟨hs, hfirst⟩
    cases hcut : cut? p s with
    | none => exact absurd hs ((cut?_eq_none_iff p s).1 hcut front rest)
    | some found =>
        obtain ⟨f, r⟩ := found
        have hlength : f.length = front.length :=
          Nat.le_antisymm (length_le_of_cut? hcut hs) (hfirst f r (eq_of_cut? hcut))
        have hparts : f ++ (p ++ r) = front ++ (p ++ rest) := by
          rw [← List.append_assoc, ← List.append_assoc, ← hs, ← eq_of_cut? hcut]
        obtain ⟨rfl, hrest⟩ := List.append_inj hparts hlength
        rw [List.append_cancel_left hrest]

theorem contains_of_cut? {s p a b : Text} (h : cut? p s = some (a, b)) : contains s p = true := by
  rw [contains, h]
  rfl

theorem replaceFirst_of_cut? {s p a b : Text} (q : Text) (h : cut? p s = some (a, b)) :
    replaceFirst p q s = a ++ q ++ b := by
  rw [replaceFirst, h]

theorem replaceFirst_eq_self {s p : Text} (q : Text) (h : contains s p = false) :
    replaceFirst p q s = s := by
  rw [contains, Option.isSome_eq_false_iff, Option.isNone_iff_eq_none] at h
  rw [replaceFirst, h]

/-- A character that does not stand in the front piece is found right behind it. -/
theorem cut?_char {c : CodePoint} {front rest : Text} (h : c ∉ front) :
    cut? [c] (front ++ c :: rest) = some (front, rest) := by
  have key : cut? [c] (front ++ [c] ++ rest) = some (front, rest) := by
    apply cut?_append
    intro a b hab hb
    cases b with
    | nil => exact absurd rfl hb
    | cons d b =>
        refine after?_cons_of_ne _ _ fun e => h ?_
        rw [hab, e]
        simp
  simpa using key

/-! ## Pieces of one kind of character -/

theorem takeWhile_append_cons {p : CodePoint → Bool} {s : Text} {c : CodePoint} (r : Text)
    (hs : ∀ x ∈ s, p x = true) (hc : p c = false) : (s ++ c :: r).takeWhile p = s := by
  rw [List.takeWhile_append_of_pos hs, List.takeWhile_cons_of_neg (by simp [hc]), List.append_nil]

theorem dropWhile_append_cons {p : CodePoint → Bool} {s : Text} {c : CodePoint} (r : Text)
    (hs : ∀ x ∈ s, p x = true) (hc : p c = false) : (s ++ c :: r).dropWhile p = c :: r := by
  rw [List.dropWhile_append_of_pos hs, List.dropWhile_cons_of_neg (by simp [hc])]

/-- A run of one kind of character ends at a character of another kind at the latest. -/
theorem takeWhile_append_stop {p : CodePoint → Bool} {c : CodePoint} (hc : p c = false)
    (s r : Text) :
    (s ++ c :: r).takeWhile p = s.takeWhile p ∧ (s ++ c :: r).dropWhile p = s.dropWhile p ++ c :: r := by
  induction s with
  | nil => simp [hc]
  | cons d s ih =>
      rw [List.cons_append, List.takeWhile_cons, List.dropWhile_cons, List.takeWhile_cons,
        List.dropWhile_cons, ih.1, ih.2]
      cases p d <;> simp

theorem takeWhile_append_of_stops {p : CodePoint → Bool} {s : Text} (h : ∃ c ∈ s, p c = false)
    (r : Text) :
    (s ++ r).takeWhile p = s.takeWhile p ∧ (s ++ r).dropWhile p = s.dropWhile p ++ r := by
  obtain ⟨c, hmem, hc⟩ := h
  obtain ⟨a, b, rfl⟩ := List.append_of_mem hmem
  obtain ⟨htake, hdrop⟩ := takeWhile_append_stop hc a b
  obtain ⟨htake', hdrop'⟩ := takeWhile_append_stop hc a (b ++ r)
  rw [List.append_assoc, List.cons_append, htake', hdrop', htake, hdrop, List.append_assoc,
    List.cons_append]
  exact ⟨rfl, rfl⟩

theorem trimLeft_append_stop {c : CodePoint} (hc : isBlank c = false) (s r : Text) :
    trimLeft (s ++ c :: r) = trimLeft s ++ c :: r := (takeWhile_append_stop hc s r).2

/-- Where a run of one kind of character ends is determined by the whole text. -/
theorem append_cons_inj {p : CodePoint → Bool} {s t r q : Text} {c d : CodePoint}
    (hs : ∀ x ∈ s, p x = true) (hc : p c = false) (ht : ∀ x ∈ t, p x = true) (hd : p d = false)
    (h : s ++ c :: r = t ++ d :: q) : s = t ∧ c = d ∧ r = q := by
  have hst : s = t := by
    rw [← takeWhile_append_cons r hs hc, h, takeWhile_append_cons q ht hd]
  subst hst
  have hcd := List.append_cancel_left h
  exact ⟨rfl, (List.cons.inj hcd).1, (List.cons.inj hcd).2⟩

theorem forall_bne_of_not_mem {c : CodePoint} {s : Text} (h : c ∉ s) :
    ∀ x ∈ s, (x != c) = true := by
  intro x hx
  rw [bne_iff_ne]
  rintro rfl
  exact h hx

/-- A text ends at the first place of a character that it lacks. -/
theorem append_cons_inj_of_not_mem {c : CodePoint} {s t r q : Text} (hs : c ∉ s) (ht : c ∉ t)
    (h : s ++ c :: r = t ++ c :: q) : s = t ∧ r = q := by
  have hstop : (c != c) = false := bne_self_eq_false c
  obtain ⟨hst, -, hrq⟩ :=
    append_cons_inj (forall_bne_of_not_mem hs) hstop (forall_bne_of_not_mem ht) hstop h
  exact ⟨hst, hrq⟩

/-- A text begins anew at the last place of a character that what follows lacks. -/
theorem append_cons_inj_of_not_mem_right {c : CodePoint} {s t r q : Text} (hr : c ∉ r) (hq : c ∉ q)
    (h : s ++ c :: r = t ++ c :: q) : s = t ∧ r = q := by
  have hrev := congrArg List.reverse h
  simp only [List.reverse_append, List.reverse_cons, List.append_assoc, List.singleton_append]
    at hrev
  obtain ⟨hrq, hst⟩ := append_cons_inj_of_not_mem (by simpa using hr) (by simpa using hq) hrev
  exact ⟨List.reverse_inj.1 hst, List.reverse_inj.1 hrq⟩

/-- A text is what is left of it without the blanks at its end, with those blanks. -/
theorem exists_blank_trimRight (s : Text) :
    ∃ r : Text, (∀ c ∈ r, isBlank c = true) ∧ s = trimRight s ++ r := by
  refine ⟨(s.reverse.takeWhile isBlank).reverse,
    fun c hc => List.mem_takeWhile_imp (List.mem_reverse.1 hc), ?_⟩
  rw [trimRight, dropEndWhile, ← List.reverse_append, List.takeWhile_append_dropWhile,
    List.reverse_reverse]

theorem trim_append_of_blank {l s r : Text} (hl : ∀ c ∈ l, isBlank c = true)
    (hr : ∀ c ∈ r, isBlank c = true) : trim (l ++ s ++ r) = trim s := by
  have hright : ∀ s : Text, trimRight (s ++ r) = trimRight s := by
    intro s
    rw [trimRight, dropEndWhile, List.reverse_append,
      List.dropWhile_append_of_pos fun c hc => hr c (List.mem_reverse.1 hc)]
    rfl
  have hleft : trimLeft (l ++ s ++ r) = trimLeft (s ++ r) := by
    rw [trimLeft, List.append_assoc, List.dropWhile_append_of_pos hl]
    rfl
  rw [trim, hleft, trim]
  by_cases hs : ∀ c ∈ s, isBlank c = true
  · have h₁ : trimLeft (s ++ r) = trimLeft r := List.dropWhile_append_of_pos hs
    have h₂ : trimLeft r = [] := List.dropWhile_eq_nil_iff.2 hr
    have h₃ : trimLeft s = [] := List.dropWhile_eq_nil_iff.2 hs
    rw [h₁, h₂, h₃]
  · have h₁ : trimLeft (s ++ r) = trimLeft s ++ r := by
      rw [trimLeft, List.dropWhile_append, if_neg]
      · rfl
      · rw [List.isEmpty_iff, List.dropWhile_eq_nil_iff]
        exact hs
    rw [h₁, hright]

theorem trim_trim (s : Text) : trim (trim s) = trim s := by
  obtain ⟨r, hr, hs⟩ := exists_blank_trimRight (trimLeft s)
  have hparts : s = s.takeWhile isBlank ++ trim s ++ r := by
    rw [List.append_assoc, show trim s ++ r = trimLeft s from hs.symm, trimLeft,
      List.takeWhile_append_dropWhile]
  conv_rhs => rw [hparts, trim_append_of_blank (fun c hc => List.mem_takeWhile_imp hc) hr]

theorem mem_of_mem_trim {c : CodePoint} {s : Text} (h : c ∈ trim s) : c ∈ s := by
  rw [trim, trimRight, dropEndWhile, List.mem_reverse] at h
  have := (List.dropWhile_suffix _).subset h
  rw [List.mem_reverse, trimLeft] at this
  exact (List.dropWhile_suffix _).subset this

theorem mem_of_mem_join {c : CodePoint} {sep : Text} {parts : List Text} (h : c ∈ join sep parts) :
    c ∈ sep ∨ ∃ part ∈ parts, c ∈ part := by
  induction parts with
  | nil => cases h
  | cons part parts ih =>
      cases parts with
      | nil => exact Or.inr ⟨part, by simp, h⟩
      | cons next parts =>
          rw [join, List.mem_append, List.mem_append] at h
          · rcases h with (h | h) | h
            · exact Or.inr ⟨part, by simp, h⟩
            · exact Or.inl h
            · rcases ih h with h | ⟨found, hfound, h⟩
              exacts [Or.inl h, Or.inr ⟨found, List.mem_cons_of_mem _ hfound, h⟩]
          · simp

theorem mem_take_append_cons {s : Text} {k : Nat} (h : s.length < k) {c : CodePoint} (r : Text) :
    c ∈ (s ++ c :: r).take k := by
  obtain ⟨n, hn⟩ : ∃ n, k - s.length = n + 1 := ⟨k - s.length - 1, by omega⟩
  rw [List.take_append, hn, List.take_succ_cons]
  simp

/-- The part of a text that is gone when a rest is left. -/
theorem take_length_sub (s r : Text) : (s ++ r).take ((s ++ r).length - r.length) = s := by
  simp

end Stencil.Text
