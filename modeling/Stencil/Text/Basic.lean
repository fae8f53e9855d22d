import Stencil.Text.CodePoint

set_option autoImplicit false

/-! # Texts

A text is a list of code points. The module gives the searches every other module is built
from: looking for a pattern at the front of a text (`after?`), at its first occurrence
(`cut?`), replacing one or all occurrences, and splitting at a character.
-/

namespace Stencil

/-- A sequence of code points; every index and count in this library is in code points. -/
abbrev Text := List CodePoint

end Stencil

/-- The text a string holds. -/
@[simp]
def String.text (s : String) : Stencil.Text := s.toList.map .char

namespace Stencil.Text

-- where the type is not known yet, `'<'` would be a character, `char '<'` is a code point
export CodePoint (char)

/-- A text as a string, to be shown: a surrogate is shown as the replacement character. -/
def string (s : Text) : String :=
  String.ofList (s.map fun
    | .char c => c
    | .lone _ => '\uFFFD')

/-! ## Patterns at the front and at the end -/

/-- What follows the pattern `p` in `s`, when `s` starts with `p`. -/
def after? : Text → Text → Option Text
  | [], s => some s
  | _ :: _, [] => none
  | p :: ps, c :: s => if p = c then after? ps s else none

theorem after?_eq_some_iff (p s r : Text) : after? p s = some r ↔ s = p ++ r := by
  induction p generalizing s with
  | nil => simp [after?, eq_comm]
  | cons a p ih =>
      cases s with
      | nil => simp [after?]
      | cons c s =>
          by_cases h : a = c
          · simp [after?, h, ih]
          · have h' : ¬ c = a := fun e => h e.symm
            simp [after?, h, h']

/-- Whether `s` starts with `p`. -/
def startsWith (s p : Text) : Bool := (after? p s).isSome

/-- Whether `s` ends with `p`. -/
def endsWith (s p : Text) : Bool := startsWith s.reverse p.reverse

/-! ## First occurrences -/

/-- The text before and the text after the first occurrence of `p` in `s`. -/
def cut? (p : Text) : Text → Option (Text × Text)
  | [] => (after? p []).map fun rest => ([], rest)
  | c :: s =>
      match after? p (c :: s) with
      | some rest => some ([], rest)
      | none => (cut? p s).map fun (front, rest) => (c :: front, rest)

theorem eq_of_cut? {p s a b : Text} (h : cut? p s = some (a, b)) : s = a ++ p ++ b := by
  induction s generalizing a with
  | nil =>
      simp only [cut?, Option.map_eq_some_iff, Prod.mk.injEq] at h
      obtain ⟨r, hr, rfl, rfl⟩ := h
      simpa using (after?_eq_some_iff _ _ _).1 hr
  | cons c s ih =>
      rw [cut?] at h
      split at h
      · rename_i rest hr
        simp only [Option.some.injEq, Prod.mk.injEq] at h
        obtain ⟨rfl, rfl⟩ := h
        simpa using (after?_eq_some_iff _ _ _).1 hr
      · simp only [Option.map_eq_some_iff, Prod.mk.injEq] at h
        obtain ⟨⟨front, rest⟩, hc, rfl, rfl⟩ := h
        simp [ih hc]

/-- Whether `p` occurs in `s`. -/
def contains (s p : Text) : Bool := (cut? p s).isSome

/-- The first place in `s` where `reader` reads something: the text before it, the text read,
and the text after it. -/
def cutAt? (reader : Text → Option Text) : Text → Option (Text × Text × Text)
  | [] => (reader []).map fun rest => ([], [], rest)
  | c :: s =>
      match reader (c :: s) with
      | some rest => some ([], (c :: s).take ((c :: s).length - rest.length), rest)
      | none => (cutAt? reader s).map fun (front, found, rest) => (c :: front, found, rest)

/-- `s` with the first occurrence of `p` replaced by `q`. -/
def replaceFirst (p q s : Text) : Text :=
  match cut? p s with
  | some (front, rest) => front ++ q ++ rest
  | none => s

/-- `s` with every occurrence of `p`, read from the left without overlaps, replaced by `q`.
The number counts the characters of the last occurrence that are still to be passed over. -/
def replaceFrom (p q : Text) : Nat → Text → Text
  | _, [] => []
  | k + 1, _ :: s => replaceFrom p q k s
  | 0, c :: s =>
      if startsWith (c :: s) p then q ++ replaceFrom p q (p.length - 1) s
      else c :: replaceFrom p q 0 s

/-- `s` with every occurrence of the nonempty pattern `p` replaced by `q`. -/
def replaceAll (p q s : Text) : Text := replaceFrom p q 0 s

/-! ## Splitting and joining -/

/-- The pieces of a text between the occurrences of a character; there is always one piece. -/
def splitOn (sep : CodePoint) : Text → List Text
  | [] => [[]]
  | c :: s =>
      if c = sep then [] :: splitOn sep s
      else
        match splitOn sep s with
        | [] => [[c]]
        | piece :: pieces => (c :: piece) :: pieces

/-- The pieces of a text, with a separator between neighbours. -/
def join (sep : Text) : List Text → Text
  | [] => []
  | [piece] => piece
  | piece :: pieces => piece ++ sep ++ join sep pieces

/-- `s` without the characters `p` holds of at its end. -/
def dropEndWhile (p : CodePoint → Bool) (s : Text) : Text := (s.reverse.dropWhile p).reverse

end Stencil.Text
