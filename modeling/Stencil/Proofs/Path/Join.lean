import Mathlib.Data.List.Basic
import Mathlib.Data.List.TakeWhile
import Stencil.Proofs.Path.Normal
import Stencil.Proofs.Text.Search

set_option autoImplicit false

/-! # Joining paths

The segments of a normal form are names, and below them, in a relative path, the `..` that
nothing cancels (`IsStack`). Taking such segments into account again changes nothing, so a normal
form is its own normal form (`normalize_normalize`), and the segments of a relative path are taken
into account on top of those of the base it is joined to (`normalSegments_joinTexts`). A way that
goes through redundant segments (`Detour`) ends on the same stack as the plain one.
-/

namespace Stencil.Path

open Text

/-- Whether a segment of a path is the name of a file or folder. -/
def IsName (segment : Text) : Prop := IsSegment segment ∧ segment ≠ [char '.', char '.']

instance (segment : Text) : Decidable (IsName segment) :=
  inferInstanceAs (Decidable ((segment ≠ [] ∧ segment ≠ [char '.'] ∧ char '/' ∉ segment)
    ∧ segment ≠ [char '.', char '.']))

variable {absolute : Bool} {segment : Text} {segments done s t : List Text} {base path : Text}

theorem IsName.text (h : IsName segment) : segment ≠ [] ∧ char '/' ∉ segment := h.1.text

/-! ## Segments on the stack -/

theorem pushSegment_name (h : IsName segment) :
    pushSegment absolute done segment = segment :: done := by
  have hkept : ¬ (decide (segment = []) || decide (segment = [char '.'])) = true := by
    simp [h.1.1, h.1.2.1]
  unfold pushSegment
  rw [if_neg hkept, if_neg h.2]

theorem pushSegment_nil : pushSegment absolute done [] = done := rfl

theorem pushSegment_dot : pushSegment absolute done ['.'] = done := rfl

theorem pushSegment_up (h : IsName segment) :
    pushSegment absolute (segment :: done) ['.', '.'] = done := by
  show (if segment = "..".text then "..".text :: segment :: done else done) = done
  exact if_neg h.2

theorem foldl_pushSegment_names (h : ∀ segment ∈ segments, IsName segment) :
    segments.foldl (pushSegment absolute) done = segments.reverse ++ done := by
  induction segments generalizing done with
  | nil => rfl
  | cons segment segments ih =>
      obtain ⟨hname, hnames⟩ := List.forall_mem_cons.1 h
      rw [List.foldl_cons, pushSegment_name hname, ih hnames, List.reverse_cons, List.append_assoc,
        List.singleton_append]

/-! ## Normal forms -/

/-- What the stack holds after any segments: names, and below them as many `..` as nothing
cancels. An absolute path has none. -/
inductive IsStack (absolute : Bool) : List Text → Prop
  | climb {n : Nat} (h : absolute = true → n = 0) : IsStack absolute (List.replicate n ['.', '.'])
  | name {segment : Text} {done : List Text} (hname : IsName segment)
      (hdone : IsStack absolute done) : IsStack absolute (segment :: done)

theorem IsStack.push (h : IsStack absolute done) (hslash : char '/' ∉ segment) :
    IsStack absolute (pushSegment absolute done segment) := by
  unfold pushSegment
  split
  · exact h
  · rename_i hkept
    simp only [Bool.or_eq_true, decide_eq_true_eq, not_or] at hkept
    split
    · rename_i hup
      cases h with
      | name hname hdone =>
          dsimp only
          rw [if_neg hname.2]
          exact hdone
      | @climb n hn =>
          cases n with
          | succ n =>
              rw [List.replicate_succ, hup]
              dsimp only
              rw [if_pos rfl, ← List.replicate_succ, ← List.replicate_succ]
              exact .climb fun habsolute => absurd (hn habsolute) (Nat.succ_ne_zero n)
          | zero =>
              dsimp only [List.replicate]
              split
              · exact .climb hn
              · rename_i hrelative
                rw [hup]
                exact .climb (n := 1) fun habsolute => absurd habsolute hrelative
    · rename_i hup
      exact .name ⟨⟨hkept.1, hkept.2, hslash⟩, hup⟩ h

theorem IsStack.foldl (h : IsStack absolute done)
    (hsegments : ∀ segment ∈ segments, char '/' ∉ segment) :
    IsStack absolute (segments.foldl (pushSegment absolute) done) := by
  induction segments generalizing done with
  | nil => exact h
  | cons segment segments ih =>
      obtain ⟨hslash, hrest⟩ := List.forall_mem_cons.1 hsegments
      exact ih (h.push hslash) hrest

/-- What is on the stack is put there by its own segments. -/
theorem IsStack.foldl_reverse (h : IsStack absolute done) :
    done.reverse.foldl (pushSegment absolute) [] = done := by
  induction h with
  | name hname _ ih =>
      rw [List.reverse_cons, List.foldl_append, ih]
      exact pushSegment_name hname
  | @climb n hn =>
      rw [List.reverse_replicate]
      cases absolute with
      | true => rw [hn rfl]; rfl
      | false =>
          induction n with
          | zero => rfl
          | succ n ih =>
              rw [List.replicate_succ', List.foldl_append, ih (by simp), ← List.replicate_succ']
              cases n <;> rfl

theorem isStack_normalSegments (path : Text) :
    IsStack (rootSlashes path != 0) (normalSegments path).reverse := by
  rw [normalSegments, List.reverse_reverse]
  exact IsStack.foldl (.climb (n := 0) fun _ => rfl) fun _ h => not_mem_of_mem_splitOn h

theorem rootSlashes_le (path : Text) : rootSlashes path ≤ 2 := by
  unfold rootSlashes
  split <;> omega

theorem rootSlashes_replicate {n : Nat} (hn : n ≤ 2) (h : path.head? ≠ some (char '/')) :
    rootSlashes (List.replicate n (char '/') ++ path) = n := by
  have hlength : ((List.replicate n (char '/') ++ path).takeWhile (· == char '/')).length = n := by
    rw [List.takeWhile_append_of_pos (by simp), takeWhile_slash h, List.append_nil,
      List.length_replicate]
  unfold rootSlashes
  rw [hlength]
  have hcases : n = 0 ∨ n = 1 ∨ n = 2 := by omega
  rcases hcases with rfl | rfl | rfl <;> rfl

/-- The slashes in front of a path put nothing on the stack. -/
theorem foldl_splitOn_replicate (n : Nat) (hsegments : ∀ segment ∈ segments, char '/' ∉ segment) :
    (splitOn (char '/') (List.replicate n (char '/') ++ join [char '/'] segments)).foldl
        (pushSegment absolute) done
      = segments.foldl (pushSegment absolute) done := by
  induction n with
  | succ n ih =>
      rw [List.replicate_succ, List.cons_append, splitOn, if_pos rfl, List.foldl_cons,
        pushSegment_nil, ih]
  | zero =>
      by_cases hnil : segments = []
      · subst hnil
        rfl
      · rw [List.replicate_zero, List.nil_append, splitOn_join hnil hsegments]

/-- A normal form has the slashes and the segments of the path. -/
theorem normalize_parts (path : Text) :
    rootSlashes (normalize path) = rootSlashes path ∧
      normalSegments (normalize path) = normalSegments path := by
  have hsegments : ∀ segment ∈ normalSegments path, IsSegment segment :=
    fun _ h => isSegment_of_mem_normalSegments h
  have hroot := rootSlashes_replicate (rootSlashes_le path)
    (head?_join_ne fun segment h => (hsegments segment h).text)
  rw [normalize]
  split
  · -- The normal form of a path without slashes and segments is a dot.
    rename_i hempty
    obtain ⟨hslashes, hjoin⟩ := List.append_eq_nil_iff.1 (List.isEmpty_iff.1 hempty)
    have hnil : normalSegments path = [] := by
      by_contra hne
      exact not_isEmpty_join hne hsegments (List.isEmpty_iff.2 hjoin)
    rw [List.replicate_eq_nil_iff] at hslashes
    rw [hslashes, hnil]
    decide
  · refine ⟨hroot, ?_⟩
    have hstack := (isStack_normalSegments path).foldl_reverse
    rw [List.reverse_reverse] at hstack
    rw [normalSegments, hroot, foldl_splitOn_replicate _ fun segment h => (hsegments segment h).2.2,
      hstack, List.reverse_reverse]

/-- **A normal form is its own normal form.** -/
theorem normalize_normalize (path : Text) : normalize (normalize path) = normalize path := by
  obtain ⟨hroot, hsegments⟩ := normalize_parts path
  rw [normalize, hroot, hsegments]
  rfl

/-! ## Joining -/

/-- A relative path goes on where the base ends; a slash is put in unless there is one. -/
theorem joinTexts_cases (base : Text) (h : path.head? ≠ some (char '/')) :
    base = [] ∧ joinTexts base path = path ∨
    (∃ front, base = front ++ [char '/'] ∧ joinTexts base path = front ++ char '/' :: path) ∨
    (∃ front c, base = front ++ [c] ∧ c ≠ char '/' ∧
        joinTexts base path = base ++ char '/' :: path) := by
  have hpath : ¬ startsWith path ['/'] = true := by
    rw [startsWith_iff]
    rintro ⟨rest, rfl⟩
    exact h rfl
  rcases List.eq_nil_or_concat' base with rfl | ⟨front, c, rfl⟩
  · refine .inl ⟨rfl, ?_⟩
    rw [joinTexts, if_neg hpath]
    rfl
  · right
    have hne : (front ++ [c]).isEmpty = false := by simp
    rw [joinTexts, if_neg hpath, hne, Bool.false_or, endsWith_append_singleton]
    by_cases hc : c = '/'
    · refine .inl ⟨front, by rw [hc], ?_⟩
      rw [if_pos (by simp [hc]), hc, List.append_assoc, List.singleton_append]
    · refine .inr ⟨front, c, rfl, hc, ?_⟩
      rw [if_neg (by simpa using fun e => hc e.symm), List.append_assoc (front ++ [c]),
        List.singleton_append]

theorem rootSlashes_joinTexts (base : Text) (h : path.head? ≠ some (char '/')) :
    rootSlashes (joinTexts base path) = rootSlashes base := by
  have hpath := takeWhile_slash h
  have htake :
      (joinTexts base path).takeWhile (· == char '/') = base.takeWhile (· == char '/') := by
    rcases joinTexts_cases base h with ⟨rfl, hjoin⟩ | ⟨front, rfl, hjoin⟩ |
      ⟨front, c, rfl, hc, hjoin⟩
    · rw [hjoin, hpath]
      rfl
    · rw [hjoin, ← List.singleton_append, ← List.append_assoc, List.takeWhile_append, hpath,
        List.append_nil]
      split
      · rename_i hall
        exact ((List.takeWhile_prefix _).eq_of_length hall).symm
      · rfl
    · have hstop : ((front ++ [c]).takeWhile (· == char '/')).length ≠ (front ++ [c]).length := by
        intro hall
        have heq := (List.takeWhile_prefix _).eq_of_length hall
        have hmem : c ∈ (front ++ [c]).takeWhile (· == char '/') := by
          rw [heq]
          simp
        exact hc (beq_iff_eq.1 (List.mem_takeWhile_imp (p := (· == char '/')) hmem))
      rw [hjoin, List.takeWhile_append, if_neg hstop]
  rw [rootSlashes, htake, rootSlashes]

/-- The segments of a relative path are taken into account on top of those of the base. -/
theorem normalSegments_joinTexts (base : Text) (h : path.head? ≠ some (char '/')) :
    normalSegments (joinTexts base path)
      = ((splitOn '/' path).foldl (pushSegment (rootSlashes base != 0))
          (normalSegments base).reverse).reverse := by
  rw [normalSegments, rootSlashes_joinTexts base h, normalSegments, List.reverse_reverse]
  rcases joinTexts_cases base h with ⟨rfl, hjoin⟩ | ⟨front, rfl, hjoin⟩ |
    ⟨front, c, rfl, hc, hjoin⟩
  · rw [hjoin]
    rfl
  · rw [hjoin, splitOn_append_sep, splitOn_append_sep, List.foldl_append, List.foldl_append]
    rfl
  · rw [hjoin, splitOn_append_sep, List.foldl_append]

theorem normalSegments_joinTexts_join (base : Text)
    (h : ∀ segment ∈ segments, segment ≠ [] ∧ char '/' ∉ segment) :
    normalSegments (joinTexts base (join ['/'] segments))
      = (segments.foldl (pushSegment (rootSlashes base != 0))
          (normalSegments base).reverse).reverse := by
  rw [normalSegments_joinTexts base (head?_join_ne h)]
  exact congrArg List.reverse (foldl_splitOn_replicate 0 fun segment hmem => (h segment hmem).2)

/-- Names stand behind the segments of the base, so what is joined to a base can be told apart. -/
theorem normalSegments_joinTexts_names (base : Text) (h : ∀ segment ∈ segments, IsName segment) :
    normalSegments (joinTexts base (join ['/'] segments)) = normalSegments base ++ segments := by
  rw [normalSegments_joinTexts_join base fun segment hmem => (h segment hmem).text,
    foldl_pushSegment_names h, List.reverse_append, List.reverse_reverse, List.reverse_reverse]

/-! ## Redundant segments -/

/-- A way with redundant segments: before any of its segments, it may stay where it is or go into
a folder and back. -/
inductive Detour (s : List Text) : List Text → Prop
  | refl : Detour s s
  | dot {front rest : List Text} (h : Detour s (front ++ rest)) (hrest : rest ≠ []) :
      Detour s (front ++ [char '.'] :: rest)
  | back {front rest : List Text} {name : Text} (h : Detour s (front ++ rest)) (hrest : rest ≠ [])
      (hname : IsName name) : Detour s (front ++ name :: ['.', '.'] :: rest)

theorem Detour.foldl (h : Detour s t) :
    t.foldl (pushSegment absolute) done = s.foldl (pushSegment absolute) done := by
  induction h with
  | refl => rfl
  | dot _ _ ih =>
      rw [← ih, List.foldl_append, List.foldl_cons, pushSegment_dot, ← List.foldl_append]
  | back _ _ hname ih =>
      rw [← ih, List.foldl_append, List.foldl_cons, List.foldl_cons, pushSegment_name hname,
        pushSegment_up hname, ← List.foldl_append]

/-- A detour ends with the same name. -/
theorem Detour.getLast? (h : Detour s t) : t.getLast? = s.getLast? := by
  induction h with
  | refl => rfl
  | dot _ hrest ih =>
      rw [← ih, List.getLast?_append_of_ne_nil _ hrest, List.getLast?_append_of_ne_nil _ (by simp),
        List.getLast?_cons_of_ne_nil hrest]
  | back _ hrest _ ih =>
      rw [← ih, List.getLast?_append_of_ne_nil _ hrest, List.getLast?_append_of_ne_nil _ (by simp),
        List.getLast?_cons_of_ne_nil (by simp), List.getLast?_cons_of_ne_nil hrest]

theorem Detour.text (h : Detour s t) (hs : ∀ segment ∈ s, segment ≠ [] ∧ char '/' ∉ segment) :
    ∀ segment ∈ t, segment ≠ [] ∧ char '/' ∉ segment := by
  induction h with
  | refl => exact hs
  | dot _ _ ih =>
      intro segment hmem
      rw [List.mem_append, List.mem_cons, or_left_comm, ← List.mem_append] at hmem
      rcases hmem with rfl | hmem
      · decide
      · exact ih segment hmem
  | back _ _ hname ih =>
      intro segment hmem
      rw [List.mem_append, List.mem_cons, List.mem_cons, or_left_comm, or_left_comm (a := _ ∈ _),
        ← List.mem_append] at hmem
      rcases hmem with rfl | rfl | hmem
      · exact hname.text
      · decide
      · exact ih segment hmem

/-- A detour leads where the plain way does, from every base. -/
theorem Detour.normalize_joinTexts (h : Detour s t)
    (hs : ∀ segment ∈ s, segment ≠ [] ∧ char '/' ∉ segment) (base : Text) :
    normalize (joinTexts base (join ['/'] t)) = normalize (joinTexts base (join ['/'] s)) := by
  have hslashes : rootSlashes (joinTexts base (join ['/'] t))
      = rootSlashes (joinTexts base (join ['/'] s)) := by
    rw [rootSlashes_joinTexts base (head?_join_ne (h.text hs)),
      rootSlashes_joinTexts base (head?_join_ne hs)]
  have hsegments : normalSegments (joinTexts base (join ['/'] t))
      = normalSegments (joinTexts base (join ['/'] s)) := by
    rw [normalSegments_joinTexts_join base (h.text hs), h.foldl,
      normalSegments_joinTexts_join base hs]
  rw [normalize, hslashes, hsegments, normalize]

end Stencil.Path
