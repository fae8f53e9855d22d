import Mathlib.Tactic.Common
import Stencil.Path.Basic

set_option autoImplicit false

/-! # Normal forms

A text is the pieces it is split into, so the text of a path says which segments it has. The
normal form of a path that does not begin with `..` leads where the path does: its segments stand
below the folder the path is seen from.
-/

namespace Stencil

namespace Text

variable {sep : CodePoint}

theorem splitOn_of_not_mem {s : Text} (h : sep ∉ s) : splitOn sep s = [s] := by
  induction s with
  | nil => rfl
  | cons c s ih =>
      obtain ⟨hc, hs⟩ := not_or.1 (mt List.mem_cons.2 h)
      rw [splitOn, if_neg fun e => hc e.symm, ih hs]

theorem splitOn_ne_nil (s : Text) : splitOn sep s ≠ [] := by
  cases s with
  | nil => simp [splitOn]
  | cons c s =>
      rw [splitOn]
      split
      · simp
      · split <;> simp

/-- A separator ends a piece. -/
theorem splitOn_append_sep (s t : Text) :
    splitOn sep (s ++ sep :: t) = splitOn sep s ++ splitOn sep t := by
  induction s with
  | nil =>
      show splitOn sep (sep :: t) = [] :: splitOn sep t
      rw [splitOn, if_pos rfl]
  | cons c s ih =>
      rw [List.cons_append, splitOn, splitOn, ih]
      by_cases hc : c = sep
      · rw [if_pos hc, if_pos hc, List.cons_append]
      · rw [if_neg hc, if_neg hc]
        have hne : splitOn sep s ≠ [] := splitOn_ne_nil s
        obtain ⟨piece, pieces, hsplit⟩ := List.exists_cons_of_ne_nil hne
        rw [hsplit, List.cons_append]
        rfl

theorem splitOn_append_cons {s : Text} (h : sep ∉ s) (t : Text) :
    splitOn sep (s ++ sep :: t) = s :: splitOn sep t := by
  rw [splitOn_append_sep, splitOn_of_not_mem h, List.singleton_append]

/-- Pieces without the separator are found again. -/
theorem splitOn_join {pieces : List Text} (hne : pieces ≠ []) (h : ∀ piece ∈ pieces, sep ∉ piece) :
    splitOn sep (join [sep] pieces) = pieces := by
  induction pieces with
  | nil => exact absurd rfl hne
  | cons piece pieces ih =>
      obtain ⟨hpiece, hpieces⟩ := List.forall_mem_cons.1 h
      cases pieces with
      | nil => exact splitOn_of_not_mem hpiece
      | cons next pieces =>
          have hjoin : join [sep] (piece :: next :: pieces)
              = piece ++ sep :: join [sep] (next :: pieces) := by
            rw [join, List.append_assoc]
            · rfl
            · simp
          rw [hjoin, splitOn_append_cons hpiece, ih (by simp) hpieces]

theorem join_inj {a b : List Text} (ha : a ≠ []) (hb : b ≠ []) (hasep : ∀ piece ∈ a, sep ∉ piece)
    (hbsep : ∀ piece ∈ b, sep ∉ piece) (h : join [sep] a = join [sep] b) : a = b := by
  rw [← splitOn_join ha hasep, h, splitOn_join hb hbsep]

theorem not_mem_of_mem_splitOn {s piece : Text} (h : piece ∈ splitOn sep s) : sep ∉ piece := by
  induction s generalizing piece with
  | nil =>
      rw [splitOn, List.mem_singleton] at h
      simp [h]
  | cons c s ih =>
      rw [splitOn] at h
      split at h
      · rcases List.mem_cons.1 h with rfl | h
        · simp
        · exact ih h
      · rename_i hc
        split at h
        · rw [List.mem_singleton] at h
          simpa [h] using fun e : sep = c => hc e.symm
        · rename_i first pieces hsplit
          rcases List.mem_cons.1 h with rfl | h
          · rw [List.mem_cons, not_or]
            exact ⟨fun e => hc e.symm, ih (by rw [hsplit]; exact List.mem_cons_self)⟩
          · exact ih (by rw [hsplit]; exact List.mem_cons_of_mem _ h)

/-! ## Endings -/

theorem suffix_append_cons_iff {p s t : Text} (hp : sep ∉ p) : p <:+ s ++ sep :: t ↔ p <:+ t := by
  constructor
  · intro h
    rcases List.suffix_or_suffix_of_suffix h (List.suffix_append s (sep :: t)) with h | h
    · rcases List.suffix_cons_iff.1 h with rfl | h
      · exact absurd List.mem_cons_self hp
      · exact h
    · exact absurd (h.subset List.mem_cons_self) hp
  · intro h
    exact h.trans ((List.suffix_cons sep t).trans (List.suffix_append s _))

theorem suffix_replicate_append_iff {p s : Text} (hp : sep ∉ p) (n : Nat) :
    p <:+ List.replicate n sep ++ s ↔ p <:+ s := by
  cases n with
  | zero => rfl
  | succ n =>
      rw [List.replicate_succ', List.append_assoc, List.singleton_append]
      exact suffix_append_cons_iff hp

/-- The last piece decides how pieces end together. -/
theorem suffix_join_iff {p : Text} (hp : sep ∉ p) (front : List Text) (last : Text) :
    p <:+ join [sep] (front ++ [last]) ↔ p <:+ last := by
  induction front with
  | nil => rfl
  | cons piece front ih =>
      have hjoin : join [sep] (piece :: front ++ [last])
          = piece ++ sep :: join [sep] (front ++ [last]) := by
        rw [List.cons_append, join, List.append_assoc]
        · rfl
        · simp
      rw [hjoin, suffix_append_cons_iff hp, ih]

end Text

namespace Path

open Text

/-- Whether a segment of a path means something. -/
def IsSegment (segment : Text) : Prop := segment ≠ [] ∧ segment ≠ [char '.'] ∧ char '/' ∉ segment

theorem IsSegment.text {segment : Text} (h : IsSegment segment) :
    segment ≠ [] ∧ char '/' ∉ segment :=
  ⟨h.1, h.2.2⟩

theorem isSegment_of_mem_parse {s segment : Text} (h : segment ∈ (parse s).segments) :
    IsSegment segment := by
  obtain ⟨hmem, hkept⟩ := List.mem_filter.1 h
  simp only [Bool.and_eq_true, Bool.not_eq_true', List.isEmpty_eq_false_iff, bne_iff_ne] at hkept
  exact ⟨hkept.1, hkept.2, not_mem_of_mem_splitOn hmem⟩

/-! ## The stack of segments -/

theorem foldl_pushSegment_filter (absolute : Bool) (segments done : List Text) :
    (segments.filter fun segment => !segment.isEmpty && segment != [char '.']).foldl
      (pushSegment absolute) done = segments.foldl (pushSegment absolute) done := by
  induction segments generalizing done with
  | nil => rfl
  | cons segment segments ih =>
      rw [List.filter_cons, List.foldl_cons]
      by_cases hkept : (!segment.isEmpty && segment != [char '.']) = true
      · rw [if_pos hkept, List.foldl_cons, ih]
      · rw [if_neg hkept, ih]
        have hskip : (decide (segment = []) || decide (segment = [char '.'])) = true := by
          by_cases hnil : segment = []
          · simp [hnil]
          · simpa [hnil] using hkept
        unfold pushSegment
        rw [if_pos hskip]

theorem mem_foldl_pushSegment {absolute : Bool} {segments done : List Text} {segment : Text}
    (h : segment ∈ segments.foldl (pushSegment absolute) done) :
    segment ∈ done ∨ segment ∈ segments ∧ segment ≠ [] ∧ segment ≠ [char '.'] := by
  induction segments generalizing done with
  | nil => exact .inl h
  | cons next segments ih =>
      rcases ih h with hpush | ⟨hmem, hne⟩
      · unfold pushSegment at hpush
        split at hpush
        · exact .inl hpush
        · rename_i hnext
          simp only [Bool.or_eq_true, decide_eq_true_eq, not_or] at hnext
          have hcons : ∀ done : List Text, segment ∈ next :: done →
              segment ∈ done ∨ segment ∈ next :: segments ∧ segment ≠ [] ∧
                  segment ≠ [char '.'] := by
            intro done h
            rcases List.mem_cons.1 h with rfl | h
            · exact .inr ⟨List.mem_cons_self, hnext⟩
            · exact .inl h
          split at hpush
          · cases done with
            | nil =>
                dsimp only at hpush
                split at hpush
                · cases hpush
                · exact hcons [] hpush
            | cons last rest =>
                dsimp only at hpush
                split at hpush
                · exact hcons _ hpush
                · exact .inl (List.mem_cons_of_mem _ hpush)
          · exact hcons _ hpush
      · exact .inr ⟨List.mem_cons_of_mem _ hmem, hne⟩

theorem isSegment_of_mem_normalSegments {s segment : Text} (h : segment ∈ normalSegments s) :
    IsSegment segment := by
  rw [normalSegments, List.mem_reverse] at h
  rcases mem_foldl_pushSegment h with h | ⟨hmem, hne, hdot⟩
  · cases h
  · exact ⟨hne, hdot, not_mem_of_mem_splitOn hmem⟩

/-- A `..` at the bottom of the stack stays there. -/
theorem getLast?_foldl_pushSegment {segments done : List Text}
    (h : done.getLast? = some [char '.', char '.']) :
    (segments.foldl (pushSegment false) done).getLast? = some [char '.', char '.'] := by
  induction segments generalizing done with
  | nil => exact h
  | cons segment segments ih =>
      refine ih ?_
      have hcons : ∀ segment : Text, (segment :: done).getLast? = some [char '.', char '.'] := by
        intro segment
        rw [List.getLast?_cons, h, Option.getD_some]
      unfold pushSegment
      split
      · exact h
      · split
        · cases done with
          | nil => cases h
          | cons last rest =>
              dsimp only
              split
              · exact hcons segment
              · rename_i hlast
                cases rest with
                | nil => exact absurd (Option.some.inj h) hlast
                | cons next rest => rwa [List.getLast?_cons_cons] at h
        · exact hcons segment

/-- Following the segments of a path does what its normal form says, when that does not begin
with `..`: the stack then holds names only. -/
theorem foldl_follow_eq {segments done : List Text} (base : List Text)
    (hdone : [char '.', char '.'] ∉ done)
    (hsegments : ∀ segment ∈ segments, IsSegment segment)
    (hbelow : (segments.foldl (pushSegment false) done).getLast? ≠ some [char '.', char '.']) :
    segments.foldl follow (base ++ done.reverse)
      = base ++ (segments.foldl (pushSegment false) done).reverse := by
  induction segments generalizing done with
  | nil => rfl
  | cons segment segments ih =>
      obtain ⟨⟨hne, hdot, -⟩, hrest⟩ := List.forall_mem_cons.1 hsegments
      rw [List.foldl_cons] at hbelow ⊢
      rw [List.foldl_cons]
      have hkept : ¬ (decide (segment = []) || decide (segment = [char '.'])) = true := by
        simp [hne, hdot]
      by_cases hup : segment = [char '.', char '.']
      · cases done with
        | nil =>
            have hpush : pushSegment false [] segment = [[char '.', char '.']] := by
              unfold pushSegment
              rw [if_neg hkept, if_pos hup, hup]
              rfl
            rw [hpush] at hbelow
            exact absurd (getLast?_foldl_pushSegment rfl) hbelow
        | cons last rest =>
            obtain ⟨hlast, hrest'⟩ := not_or.1 (mt List.mem_cons.2 hdone)
            have hpush : pushSegment false (last :: rest) segment = rest := by
              unfold pushSegment
              rw [if_neg hkept, if_pos hup]
              exact if_neg fun e => hlast e.symm
            have hfollow : follow (base ++ (last :: rest).reverse) segment
                = base ++ rest.reverse := by
              rw [follow, if_pos hup, List.reverse_cons, ← List.append_assoc, List.dropLast_concat]
            rw [hpush] at hbelow ⊢
            rw [hfollow]
            exact ih hrest' hrest hbelow
      · have hpush : pushSegment false done segment = segment :: done := by
          unfold pushSegment
          rw [if_neg hkept, if_neg hup]
        have hfollow : follow (base ++ done.reverse) segment
            = base ++ (segment :: done).reverse := by
          rw [follow, if_neg hup, List.append_assoc, List.reverse_cons]
        rw [hpush] at hbelow ⊢
        rw [hfollow]
        refine ih ?_ hrest hbelow
        rw [List.mem_cons, not_or]
        exact ⟨fun e => hup e.symm, hdone⟩

/-! ## Relative paths -/

theorem normalSegments_eq (s : Text) (hrelative : rootSlashes s = 0) :
    normalSegments s = ((parse s).segments.foldl (pushSegment false) []).reverse := by
  rw [normalSegments, hrelative, parse, foldl_pushSegment_filter]
  rfl

/-- A relative path leads below the folder it is seen from when its normal form does not begin
with `..`. -/
theorem resolve_under {s : Text} (hrelative : rootSlashes s = 0)
    (hbelow : (normalSegments s).head? ≠ some [char '.', char '.']) (folder : Path)
    (here : List Text) :
    ((parse s).under folder).resolve here = folder.resolve here ++ normalSegments s := by
  have hslashes : (parse s).slashes = 0 := hrelative
  rw [normalSegments_eq s hrelative] at hbelow ⊢
  rw [under, if_pos hslashes, resolve, resolve, List.foldl_append]
  rw [List.head?_reverse] at hbelow
  have hfollow := foldl_follow_eq (folder.resolve here) List.not_mem_nil
    (fun _ h => isSegment_of_mem_parse h) hbelow
  rw [List.reverse_nil, List.append_nil] at hfollow
  exact hfollow

theorem takeWhile_slash {s : Text} (h : s.head? ≠ some (char '/')) :
    s.takeWhile (· == char '/') = [] := by
  cases s with
  | nil => rfl
  | cons c s =>
      have hc : ¬ (c == '/') = true := by simpa using h
      rw [List.takeWhile_cons, if_neg hc]

theorem rootSlashes_eq_zero {s : Text} (h : s.head? ≠ some (char '/')) : rootSlashes s = 0 := by
  rw [rootSlashes, takeWhile_slash h]
  rfl

theorem head?_join_ne {segments : List Text}
    (hsegments : ∀ segment ∈ segments, segment ≠ [] ∧ char '/' ∉ segment) :
    (join ['/'] segments).head? ≠ some (char '/') := by
  cases segments with
  | nil => simp [join]
  | cons segment segments =>
      obtain ⟨hne, hslash⟩ := hsegments segment List.mem_cons_self
      cases segment with
      | nil => exact absurd rfl hne
      | cons c segment =>
          have hc : c ≠ '/' := fun e => hslash (by simp [e])
          cases segments <;> simpa [join] using hc

theorem not_isEmpty_join {segments : List Text} (hne : segments ≠ [])
    (hsegments : ∀ segment ∈ segments, IsSegment segment) :
    ¬ (join ['/'] segments).isEmpty = true := by
  obtain ⟨first, rest, rfl⟩ := List.exists_cons_of_ne_nil hne
  have hfirst := (hsegments first List.mem_cons_self).1
  cases rest <;> simp [join, hfirst]

/-- The normal form of a relative path has its segments. -/
theorem normalize_text_parse {s : Text} (hrelative : rootSlashes s = 0)
    (hne : normalSegments s ≠ []) :
    normalize (parse s).text = join ['/'] (normalSegments s) := by
  have hslashes : (parse s).slashes = 0 := hrelative
  have hsegments : ∀ segment ∈ (parse s).segments, IsSegment segment :=
    fun _ h => isSegment_of_mem_parse h
  have hparse : (parse s).segments ≠ [] := by
    intro hnil
    rw [normalSegments_eq s hrelative, hnil] at hne
    exact hne rfl
  have htext : (parse s).text = join ['/'] (parse s).segments := by
    rw [text, hslashes, List.replicate_zero, List.nil_append,
      if_neg (not_isEmpty_join hparse hsegments)]
  have hroot : rootSlashes (parse s).text = 0 := by
    rw [htext]
    exact rootSlashes_eq_zero (head?_join_ne fun segment h => (hsegments segment h).text)
  have hnormal : normalSegments (parse s).text = normalSegments s := by
    rw [normalSegments_eq s hrelative, normalSegments, hroot, htext,
      splitOn_join hparse fun segment h => (hsegments segment h).2.2]
    rfl
  rw [normalize, hroot, hnormal, List.replicate_zero, List.nil_append,
    if_neg (not_isEmpty_join hne fun _ h => isSegment_of_mem_normalSegments h)]

end Path
end Stencil
