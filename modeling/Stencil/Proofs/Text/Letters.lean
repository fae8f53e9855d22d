import Mathlib.Data.List.Infix
import Stencil.Proofs.Text.Case
import Stencil.Proofs.Text.Search

set_option autoImplicit false

/-! # Where the letters of a lower case come from

Beyond ASCII, only two capitals have a lower case with an ASCII letter in it, the dotted `İ` and
the Kelvin sign. A word that is written without `i` and `k` therefore stands in the lower case of
a text only where the text itself holds it, in some mixture of small letters and capitals.
-/

namespace Stencil.Text

/-- Whether a character is a small ASCII letter that is the lower case of no character beyond
ASCII. -/
def isOwnLetter (c : CodePoint) : Bool := c.isLower && c != 'i' && c != 'k'

theorem toNat_of_isOwnLetter {c : CodePoint} (h : isOwnLetter c = true) :
    0x61 ≤ c.toNat ∧ c.toNat ≤ 0x7A ∧ c.toNat ≠ 0x69 ∧ c.toNat ≠ 0x6B := by
  simp only [isOwnLetter, isLower_iff, Bool.and_eq_true, bne_iff_ne, ne_eq] at h
  obtain ⟨⟨⟨hlow, hhigh⟩, hi⟩, hk⟩ := h
  have hne : ∀ d : CodePoint, c ≠ d → c.toNat ≠ d.toNat :=
    fun d hd e => hd (CodePoint.toNat_inj.1 e)
  exact ⟨hlow, hhigh, hne 'i' hi, hne 'k' hk⟩

/-- Apart from the Kelvin sign, no run of capitals goes to a small ASCII letter. -/
theorem capitalRuns_beyond :
    (capitalRuns.all fun r => r == (0x212A, 0x212A, 1, -8383) || avoids (0x61, 0x7A) r) = true := by
  decide +kernel

/-- A letter in the lower case of a character is the lower case of an ASCII letter. -/
theorem eq_toLower_of_mem_lowerChar {c d : CodePoint} (hd : d ∈ lowerChar c)
    (h : isOwnLetter d = true) : lowerChar c = [d] ∧ d = c.toLower := by
  obtain ⟨hlow, hhigh, hi, hk⟩ := toNat_of_isOwnLetter h
  by_cases hascii : c.toNat < 0x80
  · have hlower : lowerChar c = [c.toLower] := if_pos hascii
    rw [hlower] at hd ⊢
    obtain rfl := List.mem_singleton.1 hd
    exact ⟨rfl, rfl⟩
  · exfalso
    by_cases htwo : c.toNat = 0x130
    · have hlower : lowerChar c = [char 'i', .char '\u0307'] := by
        unfold lowerChar
        rw [if_neg hascii, if_pos htwo]
      rw [hlower] at hd
      rcases List.mem_cons.1 hd with rfl | hd
      · exact hi rfl
      · obtain rfl := List.mem_singleton.1 hd
        exact absurd hhigh (by decide)
    · cases hfind : capitalRuns.find? (inRun c.toNat) with
      | none =>
          rw [lowerChar_of_find?_none hascii htwo hfind] at hd
          obtain rfl := List.mem_singleton.1 hd
          omega
      | some r =>
          obtain ⟨low, high, step, distance⟩ := r
          rw [lowerChar_of_find?_some hascii htwo hfind] at hd
          obtain rfl := List.mem_singleton.1 hd
          have hrun := List.find?_some hfind
          have hmem := List.mem_of_find?_eq_some hfind
          simp only [inRun, Bool.and_eq_true, decide_eq_true_eq] at hrun
          have hbeyond := List.all_eq_true.1 capitalRuns_beyond _ hmem
          simp only [Bool.or_eq_true, beq_iff_eq, Prod.mk.injEq] at hbeyond
          have hnumber :=
            (CodePoint.toNat_ofNat_eq_or ((c.toNat : Int) + distance).toNat).resolve_right
            fun hzero => absurd (hzero ▸ hlow) (by decide)
          rw [hnumber] at hlow hhigh hk
          rcases hbeyond with ⟨rfl, rfl, rfl, rfl⟩ | hbeyond
          · omega
          · have hout := not_mem_of_avoids (m := ((c.toNat : Int) + distance).toNat) hbeyond
              hrun.1.1 hrun.1.2 (by omega)
            omega

/-- A word at the front of the lower case of a text stands at the front of the text. -/
theorem prefix_of_lowerFrom {before s w b : Text} (hw : ∀ c ∈ w, isOwnLetter c = true)
    (h : lowerFrom before s = w ++ b) : w <+: s.map CodePoint.toLower := by
  induction w generalizing before s with
  | nil => exact List.nil_prefix
  | cons d w ih =>
      have hd := hw d (by simp)
      cases s with
      | nil => simp [lowerFrom] at h
      | cons c s =>
          rw [lowerFrom] at h
          split at h
          · -- neither lower case of the capital sigma is an ASCII letter
            have hsigma := (List.cons.inj h).1
            split at hsigma
            all_goals
              subst hsigma
              exact absurd hd (by decide)
          · obtain ⟨x, low, hlow⟩ := List.exists_cons_of_ne_nil (lowerChar_ne_nil c)
            rw [hlow, List.cons_append, List.cons_append] at h
            obtain ⟨rfl, hrest⟩ := List.cons.inj h
            obtain ⟨hall, hx⟩ := eq_toLower_of_mem_lowerChar (hlow ▸ List.mem_cons_self) hd
            rw [hlow] at hall
            rw [(List.cons.inj hall).2, List.nil_append] at hrest
            rw [List.map_cons, hx]
            exact List.cons_prefix_cons.2 ⟨rfl, ih (fun c hc => hw c (by simp [hc])) hrest⟩

/-- A word in the lower case of a text stands in the text. -/
theorem infix_of_lowerFrom {before s w a b : Text} (hne : w ≠ [])
    (hw : ∀ c ∈ w, isOwnLetter c = true) (h : lowerFrom before s = a ++ w ++ b) :
    w <:+: s.map CodePoint.toLower := by
  induction s generalizing before a with
  | nil =>
      rw [lowerFrom, eq_comm, List.append_eq_nil_iff, List.append_eq_nil_iff] at h
      exact absurd h.1.2 hne
  | cons c s ih =>
      cases a with
      | nil => exact (prefix_of_lowerFrom hw h).isInfix
      | cons x a =>
          rw [lowerFrom, List.append_assoc] at h
          rcases List.append_eq_append_iff.1 h with ⟨a', -, hrest⟩ | ⟨low, hlow, hrest⟩
          · -- the word stands behind what comes of the first character
            rw [← List.append_assoc] at hrest
            exact (ih hrest).trans (List.suffix_cons c.toLower _).isInfix
          · -- the word would begin inside a lower case of two characters
            cases low with
            | nil =>
                have hrest' : lowerFrom (c :: before) s = [] ++ w ++ b := by simpa using hrest.symm
                exact (ih hrest').trans (List.suffix_cons c.toLower _).isInfix
            | cons y low =>
                obtain ⟨d, w, rfl⟩ := List.exists_cons_of_ne_nil hne
                rw [List.cons_append, List.cons_append] at hrest
                obtain ⟨rfl, -⟩ := List.cons.inj hrest
                exfalso
                split at hlow
                · simp at hlow
                · have hmem : d ∈ lowerChar c := hlow ▸ by simp
                  rw [(eq_toLower_of_mem_lowerChar hmem (hw d (by simp))).1] at hlow
                  simp at hlow

/-- A text holds a word if its lower case does. -/
theorem infix_of_lower {s w : Text} (hne : w ≠ []) (hw : ∀ c ∈ w, isOwnLetter c = true)
    (h : w <:+: lower s) : w <:+: s.map CodePoint.toLower := by
  obtain ⟨a, b, h⟩ := h
  exact infix_of_lowerFrom hne hw h.symm

end Stencil.Text
