import Stencil.Html.Match
import Stencil.Proofs.Source.Names

set_option autoImplicit false

/-!
# Numbers that are too long

A source is not read to its end when it refers to a character by a decimal number with too many
digits. Reading follows the parts of a source, in a value of an attribute and in running text, so
such a number stands in the source as it is written (`holdsNumber_of_ofSource`).
-/

namespace Stencil.Html

open Text

/-- Whether a text refers to a character by a decimal number of so many digits, which are too
many. -/
structure HoldsNumber (s : Text) (n : Overlong) : Prop where
  long : maxDigits < n.digits
  stands : ∃ digits : Text, digits.length = n.digits ∧ (∀ c ∈ digits, c.isDigit = true) ∧
    [char '&', char '#'] ++ digits <:+: s

theorem HoldsNumber.mono {s t : Text} {n : Overlong} (h : HoldsNumber s n) (hst : s <:+: t) :
    HoldsNumber t n := by
  obtain ⟨digits, hlength, hdigits, hs⟩ := h.stands
  exact ⟨h.long, digits, hlength, hdigits, hs.trans hst⟩

theorem not_holdsNumber_of_not_mem {s : Text} (hs : char '#' ∉ s) (n : Overlong) :
    ¬ HoldsNumber s n := by
  intro h
  obtain ⟨digits, -, -, hin⟩ := h.stands
  exact hs (hin.subset (by simp))

/-- A character in front that is no ampersand does not belong to the number. -/
theorem HoldsNumber.of_cons {c : CodePoint} {s : Text} {n : Overlong} (h : HoldsNumber (c :: s) n)
    (hc : c ≠ '&') : HoldsNumber s n := by
  obtain ⟨digits, hlength, hdigits, hs⟩ := h.stands
  refine ⟨h.long, digits, hlength, hdigits,
    (List.infix_cons_iff.1 hs).resolve_left fun hfront => ?_⟩
  exact hc (List.cons_prefix_cons.1 hfront).1.symm

theorem lt_of_overlong? {k : Nat} {n : Overlong} (h : overlong? k = some n) :
    maxDigits < k ∧ n.digits = k := by
  rw [overlong?, Option.ite_none_right_eq_some] at h
  exact ⟨h.1, (Option.some.inj h.2) ▸ rfl⟩

/-- The digits at the front of a text are too many. -/
theorem holdsNumber_of_overlong? {s : Text} {n : Overlong}
    (h : overlong? (s.takeWhile CodePoint.isDigit).length = some n) :
    HoldsNumber ('&' :: char '#' :: s) n := by
  obtain ⟨hlong, hlength⟩ := lt_of_overlong? h
  refine ⟨hlength ▸ hlong, s.takeWhile CodePoint.isDigit, hlength.symm,
    fun _ hc => List.mem_takeWhile_imp hc, ?_⟩
  exact (List.cons_prefix_cons.2 ⟨rfl, List.cons_prefix_cons.2
    ⟨rfl, List.takeWhile_prefix _⟩⟩).isInfix

theorem holdsNumber_of_overlongIn? {s : Text} {n : Overlong}
    (h : CharRef.overlongIn? s = some n) : HoldsNumber s n := by
  induction s with
  | nil => cases h
  | cons c s ih =>
      have hlater : CharRef.overlongIn? s = some n → HoldsNumber (c :: s) n := fun hs =>
        (ih hs).mono (List.suffix_cons c s).isInfix
      rw [CharRef.overlongIn?] at h
      split at h
      · rename_i hfront
        rcases Option.or_eq_some_iff.1 h with h | ⟨-, h⟩
        · obtain ⟨r, hr⟩ := (startsWith_iff _ _).1 hfront
          obtain ⟨rfl, rfl⟩ := List.cons.inj hr
          exact holdsNumber_of_overlong? h
        · exact hlater h
      · exact hlater h

/-! ## Values of attributes -/

namespace StartTag

/-- A value stands in the text it is read off, but for equals signs in front of it. -/
theorem HoldsNumber.of_readValueAfter {doubled ready : Bool} {s value rest : Text}
    {n : Overlong} (h : readValueAfter doubled s = some (value, ready, rest))
    (hvalue : HoldsNumber value n) : HoldsNumber s n := by
  have ht : trimLeft s <:+: s := (List.dropWhile_suffix _).isInfix
  unfold readValueAfter at h
  split at h
  · rename_i c t hs
    have hbare : (c :: t).takeWhile isBareChar <:+: s :=
      (List.takeWhile_prefix _).isInfix.trans (hs ▸ ht)
    split at h
    · split at h
      · rename_i v r hcut
        cases h
        have hin : value <:+: t := ⟨[], [c] ++ rest, by rw [eq_of_cut? hcut]; simp⟩
        exact hvalue.mono ((hin.trans (List.suffix_cons c t).isInfix).trans (hs ▸ ht))
      · split at h
        · cases h
          exact hvalue.mono List.nil_infix
        · split at h
          · cases h
            exact (hvalue.of_cons (by decide)).mono hbare
          · cases h
    · cases h
      exact hvalue.mono hbare
  · cases h
    exact hvalue.mono List.nil_infix

theorem HoldsNumber.of_readAttr? {ready : Bool} {s rest : Text} {attr : Text × Text}
    {n : Overlong} (h : readAttr? s = some (attr, ready, rest)) (hvalue : HoldsNumber attr.2 n) :
    HoldsNumber s n := by
  unfold readAttr? at h
  split at h
  · cases h
  · rename_i c t
    have hafter : t.dropWhile isAttrNameChar <:+ c :: t :=
      (List.dropWhile_suffix _).trans (List.suffix_cons c t)
    split at h
    · dsimp only at h
      split at h
      · rename_i value r rest hread
        cases h
        unfold readValue? at hread
        split at hread
        · rename_i u hu
          have htrim : char '=' :: u <:+ t.dropWhile isAttrNameChar := hu ▸ List.dropWhile_suffix _
          have hspaced : u.dropWhile (· == char '=') <:+ c :: t :=
            (((List.dropWhile_suffix _).trans (List.suffix_cons (char '=') u)).trans htrim).trans
                hafter
          exact (HoldsNumber.of_readValueAfter hread hvalue).mono hspaced.isInfix
        · cases hread
      · cases h
        exact hvalue.mono List.nil_infix
    · cases h

theorem HoldsNumber.of_readAttrs {ready : Bool} {s : Text} {attr : Text × Text}
    {n : Overlong} (hattr : attr ∈ (readAttrs ready s).1) (hvalue : HoldsNumber attr.2 n) :
    HoldsNumber s n := by
  fun_induction readAttrs ready s with
  | case1 ready s gap _ first ready' rest hread attrs rest' hmore ih =>
      have hgap : gap <:+ s := skipGap_suffix s
      rcases List.mem_cons.1 hattr with rfl | hattr
      · exact (HoldsNumber.of_readAttr? hread hvalue).mono hgap.isInfix
      · rw [hmore] at ih
        exact (ih hattr).mono ((StartTag.of_readAttr? hread).2.trans hgap).isInfix
  | case2 ready s gap _ _ => cases hattr
  | case3 ready s gap _ => cases hattr

/-- A start tag that is not read has such a number in a value. -/
theorem holdsNumber_of_read {s : Text} {n : Overlong} (h : read s = .overlong n) :
    HoldsNumber s n := by
  -- a number that is found stands in a value
  have hfound : ∀ {reading : List (Text × Text) → Reading} {attrs : List (Text × Text)},
      (∀ attrs m, reading attrs ≠ .overlong m) → Reading.ofAttrs attrs reading = .overlong n →
      ∃ attr ∈ attrs, HoldsNumber attr.2 n := by
    intro reading attrs hreading h
    unfold Reading.ofAttrs at h
    split at h
    · rename_i m hm
      cases h
      obtain ⟨attr, hattr, hlong⟩ := List.exists_of_findSome?_eq_some hm
      exact ⟨attr, hattr, holdsNumber_of_overlongIn? hlong⟩
    · exact absurd h (hreading _ _)
  have hattrs : ∀ attr ∈ (readAttrs (((s.takeWhile isNameChar).getLast?.map endsPiece).getD false)
      (s.dropWhile isNameChar)).1, HoldsNumber attr.2 n → HoldsNumber s n := fun attr hattr hlong =>
    (HoldsNumber.of_readAttrs hattr hlong).mono (List.dropWhile_suffix _).isInfix
  unfold read at h
  dsimp only at h
  split at h
  · obtain ⟨attr, hattr, hlong⟩ := hfound (fun _ _ e => by cases e) h
    exact hattrs attr hattr hlong
  · obtain ⟨attr, hattr, hlong⟩ := hfound (fun _ _ e => by cases e) h
    exact hattrs attr hattr hlong
  · cases h
  · split at h
    · cases h
    · obtain ⟨attr, hattr, hlong⟩ := hfound (fun _ _ e => by cases e) h
      exact hattrs attr hattr hlong

end StartTag

/-! ## Running text -/

/-- In a declaration no number is read. -/
theorem readDeclaration?_ne_overlong (s : Text) (n : Overlong) :
    Token.readDeclaration? s ≠ .error (.overlong n) := by
  unfold Token.readDeclaration?
  dsimp only
  split
  · exact nofun
  · unfold Token.readSection?
    dsimp only
    split
    · exact nofun
    · split
      · exact fun h => by cases h
      · split
        · exact nofun
        · split
          · exact nofun
          · split
            exacts [nofun, fun h => by cases h]
  · split <;> exact nofun

theorem holdsNumber_of_readNumber? {s : Text} {n : Overlong}
    (h : Token.readNumber? s = .error n) : HoldsNumber ('&' :: char '#' :: s) n := by
  unfold Token.readNumber? at h
  dsimp only at h
  split at h
  · split at h
    · split at h
      · cases h
      · split at h
        · rename_i hlong
          cases h
          exact holdsNumber_of_overlong? hlong
        · cases h
    · cases h
  · split at h
    · split at h <;> cases h
    · cases h

namespace Step

theorem holdsNumber_of_ofReference {last : Bool} {s : Text} {n : Overlong}
    (h : ofReference last s = .error (.overlong n)) : HoldsNumber ('&' :: s) n := by
  unfold ofReference at h
  split at h
  · cases h
  · split at h
    · cases h
    · split at h <;> cases h
    · rename_i hnumber
      cases h
      exact holdsNumber_of_readNumber? hnumber
  · split at h
    · split at h
      · cases h
      · split at h <;> cases h
    · cases h

theorem holdsNumber_of_ofMarkup {p : Position} {s : Text} {n : Overlong}
    (h : ofMarkup p s = .error (.overlong n)) : HoldsNumber s n := by
  unfold ofMarkup at h
  dsimp only at h
  split at h
  · cases h
  · cases h
  · -- a declaration is rejected or read
    rename_i r
    cases hread : Token.readDeclaration? r with
    | ok found => rw [hread] at h; cases h
    | error e =>
        rw [hread] at h
        cases h
        exact absurd hread (readDeclaration?_ne_overlong r n)
  · split at h
    · unfold ofStartTag at h
      split at h
      · cases h
      · cases h
      · cases h
      · rename_i m hread
        cases h
        exact StartTag.holdsNumber_of_read hread
    · cases h
  · cases h

theorem holdsNumber_of_next {last : Bool} {mode : Mode} {p : Position} {s : Text} {n : Overlong}
    (h : next last mode p s = .error (.overlong n)) : HoldsNumber s n := by
  unfold next at h
  split at h
  · cases h
  · split at h
    · rename_i r
      cases hmarkup : ofMarkup p r with
      | error e =>
          rw [hmarkup] at h
          cases h
          exact (holdsNumber_of_ofMarkup hmarkup).mono (List.suffix_cons (char '<') r).isInfix
      | ok found =>
          rw [hmarkup] at h
          cases found with
          | none =>
              dsimp only [bind, Except.bind] at h
              split at h <;> cases h
          | some found => cases h
    · exact holdsNumber_of_ofReference h
    · cases h

end Step

/-- Digits with a semicolon behind them are a number, or too many for one. -/
theorem readNumber?_append {digits : Text} (hdigits : ∀ c ∈ digits, c.isDigit = true)
    (hlong : maxDigits < digits.length) (r : Text) :
    Token.readNumber? (digits ++ char ';' :: r) = .error ⟨digits.length⟩ := by
  have hne : digits ≠ [] := by
    rintro rfl
    exact absurd hlong (by decide)
  unfold Token.readNumber?
  simp only [takeWhile_append_cons r hdigits (show CodePoint.isDigit ';' = false by decide),
    dropWhile_append_cons r hdigits (show CodePoint.isDigit ';' = false by decide),
    List.isEmpty_eq_false_iff.2 hne, Bool.not_false, if_true, overlong?, hlong]
  rfl

/-! ## Sources -/

theorem holdsNumber_of_pass {last : Bool} {c : Cursor} {n : Overlong}
    (h : c.pass last = .error (.overlong n)) : HoldsNumber c.rest n := by
  fun_induction Cursor.pass last c with
  | case1 c _ => cases h
  | case2 c _ e hnext =>
      cases h
      exact Step.holdsNumber_of_next hnext
  | case3 c _ tokens rest hnext => cases h
  | case4 c _ tokens mode rest hnext _ ih =>
      have hmore : (c.moveTo mode rest).pass last = .error (.overlong n) := by
        cases hpass : (c.moveTo mode rest).pass last with
        | ok found => rw [hpass] at h; cases h
        | error e => rw [hpass] at h; cases h; rfl
      exact (ih hmore).mono (Step.next_isFrom hnext).2.isInfix
  | case5 c _ tokens mode rest hnext _ => cases h

/-- Reading does not go beyond a number with too many digits. -/
theorem tokens_of_longNumber {digits : Text} (hdigits : ∀ c ∈ digits, c.isDigit = true)
    (hlong : maxDigits < digits.length) (p : Position) (r : Text) :
    Cursor.tokens ⟨.markup, p, [char '&', char '#'] ++ (digits ++ char ';' :: r)⟩
      = .error (.overlong ⟨digits.length⟩) := by
  have hnext : Step.next false .markup p ('&' :: char '#' :: (digits ++ char ';' :: r))
      = .error (.overlong ⟨digits.length⟩) := by
    rw [Step.next, Step.ofReference, readNumber?_append hdigits hlong]
  have hpass : Cursor.pass false ⟨.markup, p, char '&' :: char '#' :: (digits ++ char ';' :: r)⟩
      = .error (.overlong ⟨digits.length⟩) := by
    rw [Cursor.pass]
    simp only [List.isEmpty_cons, Bool.false_eq_true, if_false, hnext]
  exact congrArg (· >>= _) hpass

/-- A source that is not read for a number has such a number in it. -/
theorem holdsNumber_of_ofSource {source : Text} {n : Overlong}
    (h : Node.ofSource source = .error (.overlong n)) : HoldsNumber source n := by
  have htokens : tokens source = .error (.overlong n) := by
    cases hts : tokens source with
    | ok ts => rw [Node.ofSource, hts] at h; cases h
    | error e => rw [Node.ofSource, hts] at h; cases h; rfl
  rw [tokens] at htokens
  cases hfirst : (Cursor.start source).pass false with
  | error e =>
      rw [hfirst] at htokens
      cases htokens
      exact holdsNumber_of_pass hfirst
  | ok first =>
      obtain ⟨ts, paused⟩ := first
      have hpaused := (Cursor.pass_isFrom hfirst).2
      cases hsecond : paused.pass true with
      | error e =>
          rw [hfirst] at htokens
          simp only [bind, Except.bind, hsecond] at htokens
          cases htokens
          exact (holdsNumber_of_pass hsecond).mono hpaused.isInfix
      | ok second =>
          rw [hfirst] at htokens
          simp only [bind, Except.bind, hsecond] at htokens
          cases htokens

/-- Elements are not found in a source for a number only when it has such a number in it. -/
theorem holdsNumber_of_matchesIn {source : Text} {sel : Selector} {limit : Option Int}
    {n : Overlong} (h : matchesIn source sel limit = .error n) : HoldsNumber source n := by
  rw [matchesIn] at h
  split at h
  · cases h
  · split at h
    · cases h
    · rename_i hread
      cases h
      exact holdsNumber_of_ofSource hread
    · cases h

end Stencil.Html
