import Mathlib.Data.List.Infix
import Stencil.Html.Source
import Stencil.Proofs.Text.Search

set_option autoImplicit false

/-! # What is left to read

Whatever a source looks like, every step of the reading goes on at a later place of the same
source: what is left is a suffix. So what is read off what is left is a piece of the source.
-/

namespace Stencil

namespace Text

theorem suffix_of_after? {p s r : Text} (h : after? p s = some r) : r <:+ s :=
  ⟨p, ((after?_eq_some_iff p s r).1 h).symm⟩

theorem suffix_of_cut? {p s a b : Text} (h : cut? p s = some (a, b)) : b <:+ s :=
  ⟨a ++ p, (eq_of_cut? h).symm⟩

/-- Whether a reader goes on at a later place of what it reads. -/
def GoesOn (reader : Text → Option Text) : Prop := ∀ s r, reader s = some r → r <:+ s

theorem GoesOn.bind {f g : Text → Option Text} (hf : GoesOn f) (hg : GoesOn g) :
    GoesOn fun s => (f s).bind g := by
  intro s r h
  obtain ⟨t, ht, hr⟩ := Option.bind_eq_some_iff.1 h
  exact (hg t r hr).trans (hf s t ht)

theorem goesOn_after? (p : Text) : GoesOn (after? p) := fun _ _ => suffix_of_after?

theorem GoesOn.comp_trimLeft {f : Text → Option Text} (hf : GoesOn f) :
    GoesOn fun s => f (trimLeft s) := fun _ _ h => (hf _ _ h).trans (List.dropWhile_suffix _)

theorem suffix_of_cutAt? {reader : Text → Option Text} (hreader : GoesOn reader)
    {s front found rest : Text} (h : cutAt? reader s = some (front, found, rest)) : rest <:+ s := by
  induction s generalizing front with
  | nil =>
      rw [cutAt?, Option.map_eq_some_iff] at h
      obtain ⟨r, hr, e⟩ := h
      cases e
      exact hreader [] _ hr
  | cons c s ih =>
      rw [cutAt?] at h
      split at h
      · rename_i r hr
        cases h
        exact hreader _ _ hr
      · obtain ⟨⟨front', found', rest'⟩, hcut, e⟩ := Option.map_eq_some_iff.1 h
        cases e
        exact (ih hcut).trans (List.suffix_cons c s)

end Text

namespace Html

open Text

/-! ## Readers of one token -/

namespace RawText

theorem goesOn_afterName? (name : Text) : GoesOn (afterName? name) := by
  induction name with
  | nil =>
      intro s r h
      cases h
      exact List.suffix_rfl
  | cons p ps ih =>
      intro s r h
      cases s with
      | nil => simp [afterName?] at h
      | cons c s =>
          rw [afterName?] at h
          split at h
          · exact (ih s r h).trans (List.suffix_cons c s)
          · simp at h

theorem goesOn_afterSpacedEndTag? (name : Text) : GoesOn (afterSpacedEndTag? name) := by
  intro s r h
  simp only [afterSpacedEndTag?, Option.bind_eq_bind, Option.bind_eq_some_iff] at h
  obtain ⟨t, ht, u, hu, hr⟩ := h
  exact (((goesOn_after? ['>']).comp_trimLeft u r hr).trans
    ((goesOn_afterName? name).comp_trimLeft t u hu)).trans (suffix_of_after? ht)

end RawText

namespace Token

theorem goesOn_afterSpaced? (ps : Text) : GoesOn (afterSpaced? ps) := by
  induction ps with
  | nil =>
      intro s r h
      cases h
      exact List.suffix_rfl
  | cons p ps ih => exact ((goesOn_after? [p]).comp_trimLeft).bind ih

/-- Whether a token is a piece of text or an end tag. -/
def IsPassive : Token → Prop
  | .start _ _ => False
  | .close _ => True
  | .text _ _ => True

theorem of_readEndTag? {s rest : Text} {ts : List Token} (h : readEndTag? s = some (ts, rest)) :
    (∀ t ∈ ts, t.IsPassive) ∧ rest <:+ s := by
  obtain ⟨⟨inside, r⟩, hcut, e⟩ := Option.map_eq_some_iff.1 h
  have hr := suffix_of_cut? hcut
  dsimp only at e
  split_ifs at e
  all_goals
    cases e
    exact ⟨by simp [IsPassive], hr⟩

theorem of_readComment? {s rest : Text} {ts : List Token} (h : readComment? s = some (ts, rest)) :
    (∀ t ∈ ts, t.IsPassive) ∧ rest <:+ s := by
  obtain ⟨⟨content, found, r⟩, hcut, e⟩ := Option.map_eq_some_iff.1 h
  cases e
  exact ⟨by simp [IsPassive],
    suffix_of_cutAt? ((goesOn_after? _).bind (goesOn_afterSpaced? _)) hcut⟩

theorem of_readUpToClose? {kind : TextKind} {s rest : Text} {ts : List Token}
    (h : readUpToClose? kind s = some (ts, rest)) : (∀ t ∈ ts, t.IsPassive) ∧ rest <:+ s := by
  obtain ⟨⟨content, r⟩, hcut, e⟩ := Option.map_eq_some_iff.1 h
  cases e
  exact ⟨by simp [IsPassive], suffix_of_cut? hcut⟩

theorem isPassive_ofSection (content : Text) : (ofSection content).IsPassive := by
  unfold ofSection
  dsimp only
  split <;> trivial

theorem of_readSection? {s rest : Text} {ts : List Token}
    (h : readSection? s = .ok (some (ts, rest))) : (∀ t ∈ ts, t.IsPassive) ∧ rest <:+ s := by
  have hclose : ∀ close : Text, ((cutAt? (fun t => (after? [']'] t).bind (afterSpaced? close)) s).map
      fun x => ([ofSection x.1], x.2.2)) = some (ts, rest) →
      (∀ t ∈ ts, t.IsPassive) ∧ rest <:+ s := by
    intro close h
    obtain ⟨⟨content, found, r⟩, hcut, e⟩ := Option.map_eq_some_iff.1 h
    cases e
    exact ⟨by simp [isPassive_ofSection],
      suffix_of_cutAt? ((goesOn_after? _).bind (goesOn_afterSpaced? _)) hcut⟩
  unfold readSection? at h
  dsimp only at h
  split_ifs at h
  · cases h
  · cases h
  · exact hclose _ (Except.ok.inj h)
  · exact hclose _ (Except.ok.inj h)

theorem of_readDeclaration? {s rest : Text} {ts : List Token}
    (h : readDeclaration? s = .ok (some (ts, rest))) : (∀ t ∈ ts, t.IsPassive) ∧ rest <:+ s := by
  unfold readDeclaration? at h
  dsimp only at h
  split at h
  · rename_i r
    obtain ⟨hts, hr⟩ := of_readComment? (Except.ok.inj h)
    exact ⟨hts, hr.trans ⟨['-', '-'], rfl⟩⟩
  · rename_i r
    obtain ⟨hts, hr⟩ := of_readSection? h
    exact ⟨hts, hr.trans (List.suffix_cons (char '[') r)⟩
  · split at h
    · obtain ⟨⟨content, r⟩, hcut, e⟩ := Option.map_eq_some_iff.1 (Except.ok.inj h)
      cases e
      exact ⟨by simp [IsPassive], (suffix_of_cut? hcut).trans (List.drop_suffix _ _)⟩
    · exact of_readUpToClose? (Except.ok.inj h)

theorem strayText_suffix (s : Text) : (strayText s).2 <:+ s := by
  unfold strayText
  split
  · rename_i hcut
    exact suffix_of_cut? hcut
  · split
    · rename_i front rest hcut
      exact ⟨front, by simpa using (eq_of_cut? hcut).symm⟩
    · exact List.suffix_rfl

theorem skipSemicolon_suffix (s : Text) : skipSemicolon s <:+ s := by
  unfold skipSemicolon
  split
  · exact List.suffix_cons _ _
  · exact List.suffix_rfl

theorem suffix_of_readNumber? {s rest : Text} {n : Nat}
    (h : readNumber? s = .ok (some (n, rest))) : rest <:+ s := by
  unfold readNumber? at h
  dsimp only at h
  split at h
  · split at h
    · rename_i c r hdrop
      split at h
      · cases h
      · split at h
        · cases h
        · cases h
          exact (skipSemicolon_suffix _).trans (hdrop ▸ List.dropWhile_suffix _)
    · cases h
  · split at h
    · split at h
      · cases h
        exact ((skipSemicolon_suffix _).trans (List.dropWhile_suffix _)).trans
          (List.suffix_cons _ _)
      · cases h
    · cases h

theorem suffix_of_readRefName? {s rest name : Text} (h : readRefName? s = some (name, rest)) :
    rest <:+ s := by
  unfold readRefName? at h
  dsimp only at h
  split at h
  · rename_i c r hdrop
    cases h
    exact (skipSemicolon_suffix _).trans (hdrop ▸ List.dropWhile_suffix _)
  · rename_i hdrop
    have hall : s.takeWhile isRefNameChar = s := by
      have hsplit := List.takeWhile_append_dropWhile (p := isRefNameChar) (l := s)
      rwa [hdrop, List.append_nil] at hsplit
    split at h
    · cases h
      rw [hall]
      exact List.drop_suffix _ _
    · cases h

end Token
end Html
end Stencil
