import Mathlib.Algebra.Ring.Int.Defs
import Stencil.Proofs.Css.RoundTrip
import Stencil.Scope.Rules

set_option autoImplicit false

/-! # Where a strict marker stands

A strict marker is put in front of the first colon outside quotes and brackets, and these are counted
character by character. The count knows neither comments nor the backslash, which takes a quote or a
colon along. So it can take a colon that is hidden in a token for the first one of a pseudo class, and
the marker tears the token apart. It does not where each hidden colon stands behind strings and
comments that do not disturb the count (`CountsRight`): there the count agrees with the pieces that
the selector is read as, or what it finds is a colon that everyone sees.
-/

namespace Stencil

open Text

namespace Css

/-! ## Places between tokens -/

/-- Whether a row of pieces ends with a backslash that takes the next character along. -/
def endsEscaping (ps : List Piece) : Bool :=
  ps.foldl (fun escaping p => decide (p = .char '\\') && !escaping) false

/-- Whether an index of a text is between tokens: neither in a string or comment, nor between a
backslash and the character it takes along. -/
def IsBetweenTokens (s : Text) (i : Nat) : Prop :=
  ∃ k ≤ (pieces s).length, (sourceOf ((pieces s).take k)).length = i ∧
    (k < (pieces s).length → endsEscaping ((pieces s).take k) = false)

instance (s : Text) : DecidablePred (IsBetweenTokens s) := fun _ =>
  inferInstanceAs (Decidable (∃ k ≤ (pieces s).length, _))

theorem isBetweenTokens_of_append {ps qs : List Piece} (h : Written (ps ++ qs))
    (hescape : qs ≠ [] → endsEscaping ps = false) :
    IsBetweenTokens (sourceOf (ps ++ qs)) (sourceOf ps).length := by
  refine ⟨ps.length, ?_, ?_, fun hlt => ?_⟩
  · rw [pieces_sourceOf h, List.length_append]
    exact Nat.le_add_right _ _
  · rw [pieces_sourceOf h, List.take_left]
  · rw [pieces_sourceOf h] at hlt ⊢
    rw [List.take_left]
    refine hescape ?_
    rintro rfl
    simp at hlt

/-! ## What is counted -/

/-- The brackets that a piece opens, less those it closes. -/
def Piece.turn : Piece → Int
  | .char c => if c = '[' || c = '(' then 1 else if c = ']' || c = ')' then -1 else 0
  | _ => 0

/-- The brackets that are open behind some pieces, when no string and no comment counts. -/
def depthOf (ps : List Piece) : Int := (ps.map Piece.turn).sum

/-- The characters that are counted when the first colon is looked for. -/
def countedMarks : Text := ['"', '\'', '[', '(', ']', ')']

/-- Whether a piece does not disturb the count: a string holds its own quote at its ends only, and a
comment holds nothing that is counted. -/
def Piece.isClear : Piece → Bool
  | .char _ => true
  | .quoted (quote :: tail) => !tail.dropLast.elem quote
  | .comment s => s.all (!countedMarks.elem ·)
  | _ => false

/-- Whether a colon in a piece is hidden: in a string or a comment, or behind a backslash that takes
it along. -/
def hidesColon (front : List Piece) : Piece → Bool
  | .char c => c = ':' && endsEscaping front
  | p => p.source.elem (.char ':')

/-- Whether a piece is a string. -/
def Piece.isQuoted : Piece → Bool
  | .quoted _ => true
  | _ => false

/-- Whether each hidden colon stands behind strings and comments that do not disturb the count, the
one that holds it included, and in brackets unless it is in a string. -/
def CountsRight (ps : List Piece) : Prop :=
  ∀ k < ps.length, ∀ p ∈ ps[k]?, hidesColon (ps.take k) p = true →
    (∀ q ∈ ps.take (k + 1), q.isClear = true) ∧ (p.isQuoted = false → depthOf (ps.take k) ≠ 0)

instance : DecidablePred CountsRight := fun ps =>
  inferInstanceAs (Decidable (∀ k < ps.length, ∀ p ∈ ps[k]?, _ → _))

theorem CountsRight.of_append {a b : List Piece} {p : Piece} (h : CountsRight (a ++ p :: b))
    (hp : hidesColon a p = true) :
    (∀ q ∈ a ++ [p], q.isClear = true) ∧ (p.isQuoted = false → depthOf a ≠ 0) := by
  have hlt : a.length < (a ++ p :: b).length := by
    rw [List.length_append, List.length_cons]
    omega
  have htake : (a ++ p :: b).take (a.length + 1) = a ++ [p] := by
    rw [show a ++ p :: b = a ++ [p] ++ b by simp]
    exact List.take_left' (by simp)
  have key := h a.length hlt p (by simp)
  rw [htake, List.take_left] at key
  exact key hp

theorem depthOf_append_singleton (ps : List Piece) (p : Piece) :
    depthOf (ps ++ [p]) = depthOf ps + p.turn := by
  simp [depthOf]

/-! ## Passing over pieces -/

open ScopeKind (cutPseudo)

/-- A character that opens no string is passed over, unless it is the colon that is looked for. -/
theorem cutPseudo_char {c : CodePoint} (hdouble : c ≠ '"') (hsingle : c ≠ '\'') {depth : Int}
    (hcolon : ¬ (c = ':' ∧ depth = 0)) (r : Text) :
    cutPseudo none depth (c :: r)
      = (c :: (cutPseudo none (depth + (Piece.char c).turn) r).1,
          (cutPseudo none (depth + (Piece.char c).turn) r).2) := by
  have hfound : (decide (c = ':') && depth == 0) = false := by simpa using hcolon
  rw [cutPseudo, Piece.turn]
  simp only [hdouble, hsingle, hfound, decide_false, Bool.or_self, Bool.false_eq_true, if_false]
  split
  · rfl
  · split
    · rfl
    · rw [Int.add_zero]

theorem cutPseudo_unmarked {s : Text} (hs : ∀ c ∈ s, c ∉ countedMarks) {depth : Int}
    (hcolon : .char ':' ∈ s → depth ≠ 0) (r : Text) :
    cutPseudo none depth (s ++ r)
      = (s ++ (cutPseudo none depth r).1, (cutPseudo none depth r).2) := by
  induction s with
  | nil => rfl
  | cons c s ih =>
      obtain ⟨hc, hs⟩ := List.forall_mem_cons.1 hs
      simp only [countedMarks, List.mem_cons, not_or] at hc
      obtain ⟨hdouble, hsingle, hsquare, hround, hsquare', hround', -⟩ := hc
      have hturn : (Piece.char c).turn = 0 := by
        simp [Piece.turn, hsquare, hround, hsquare', hround']
      have hfirst : ¬ (c = ':' ∧ depth = 0) := fun h => hcolon (by simp [h.1]) h.2
      rw [List.cons_append, cutPseudo_char hdouble hsingle hfirst, hturn, Int.add_zero,
        ih hs fun h => hcolon (List.mem_cons_of_mem c h)]
      rfl

/-- A string is passed over up to the first place of its quote. -/
theorem cutPseudo_string {quote : CodePoint} {s : Text} (hs : quote ∉ s) (depth : Int) (r : Text) :
    cutPseudo (some quote) depth (s ++ quote :: r)
      = (s ++ quote :: (cutPseudo none depth r).1, (cutPseudo none depth r).2) := by
  induction s with
  | nil =>
      rw [List.nil_append, cutPseudo]
      simp
  | cons c s ih =>
      have hc : c ≠ quote := fun e => hs (e ▸ List.mem_cons_self)
      rw [List.cons_append, cutPseudo]
      simp [hc, ih fun h => hs (List.mem_cons_of_mem c h)]

theorem IsStringTail.exists_snoc {quote : CodePoint} {tail : Text} (h : IsStringTail quote tail) :
    ∃ s, tail = s ++ [quote] := by
  induction h with
  | close => exact ⟨[], rfl⟩
  | escaped c _ ih =>
      obtain ⟨s, rfl⟩ := ih
      exact ⟨.char '\\' :: c :: s, rfl⟩
  | @char c _ _ _ _ ih =>
      obtain ⟨s, rfl⟩ := ih
      exact ⟨c :: s, rfl⟩

/-- A piece that does not disturb the count is passed over, unless it holds the colon that is looked
for. -/
theorem cutPseudo_piece {p : Piece} (hp : p.IsWhole) (hclear : p.isClear = true) {depth : Int}
    (hcolon : p.isQuoted = false → .char ':' ∈ p.source → depth ≠ 0) (r : Text) :
    cutPseudo none depth (p.source ++ r)
      = (p.source ++ (cutPseudo none (depth + p.turn) r).1, (cutPseudo none (depth + p.turn) r).2) := by
  cases hp with
  | @char c hdouble hsingle =>
      exact cutPseudo_char hdouble hsingle (fun h => hcolon rfl (by simp [Piece.source, h.1]) h.2) r
  | @quoted quote tail hquote htail =>
      obtain ⟨s, rfl⟩ := htail.exists_snoc
      have hs : quote ∉ s := by simpa [Piece.isClear] using hclear
      have hopen : (decide (quote = '"') || decide (quote = '\'')) = true := by simpa using hquote
      show cutPseudo none depth (quote :: (s ++ [quote] ++ r)) = (quote :: (s ++ [quote] ++ _), _)
      rw [cutPseudo]
      simp only [hopen, if_true]
      rw [List.append_assoc, List.singleton_append, cutPseudo_string hs]
      simp [Piece.turn]
  | @comment inside hinside =>
      have hunmarked : ∀ c ∈ [char '/', char '*'] ++ inside ++ [char '*', char '/'],
          c ∉ countedMarks := fun c hc => by
        simpa using List.all_eq_true.1 hclear c hc
      have hturn : (Piece.comment ([char '/', char '*'] ++ inside ++ [char '*', char '/'])).turn
          = 0 := rfl
      rw [hturn, Int.add_zero]
      exact cutPseudo_unmarked hunmarked (hcolon rfl) r

/-! ## Where the count ends -/

theorem cutPseudo_snd (quote : Option CodePoint) (depth : Int) (s : Text) :
    (cutPseudo quote depth s).2 = [] ∨ ∃ r, (cutPseudo quote depth s).2 = .char ':' :: r := by
  fun_induction cutPseudo quote depth s with
  | case1 => exact Or.inl rfl
  | case2 _ _ _ _ _ ih => exact ih
  | case3 _ _ _ _ _ ih => exact ih
  | case4 _ _ _ _ _ _ ih => exact ih
  | case5 _ _ _ _ _ _ _ ih => exact ih
  | case6 depth c s _ _ _ hcolon =>
      -- the only case in which something is left
      simp only [Bool.and_eq_true, decide_eq_true_eq] at hcolon
      exact Or.inr ⟨s, by rw [hcolon.1]⟩
  | case7 _ _ _ _ _ _ _ _ ih => exact ih

/-- Where no colon is hidden, a colon in the text is a piece of its own, and no backslash takes it
along. -/
theorem exists_border_of_colon {passed ps : List Piece}
    (hshown : ∀ a p b, ps = a ++ p :: b → hidesColon (passed ++ a) p = false) {front rest : Text}
    (h : sourceOf ps = front ++ .char ':' :: rest) :
    ∃ a b, ps = a ++ .char ':' :: b ∧ sourceOf a = front ∧ sourceOf b = rest ∧
      endsEscaping (passed ++ a) = false := by
  induction ps generalizing passed front with
  | nil => simp [sourceOf] at h
  | cons p ps ih =>
      have hbehind : ∀ front', front = p.source ++ front' →
          sourceOf ps = front' ++ .char ':' :: rest →
          ∃ a b, p :: ps = a ++ .char ':' :: b ∧ sourceOf a = front ∧ sourceOf b = rest ∧
            endsEscaping (passed ++ a) = false := by
        intro front' hfront hps
        have hlater : ∀ a q b, ps = a ++ q :: b → hidesColon (passed ++ [p] ++ a) q = false := by
          intro a q b e
          simpa using hshown (p :: a) q b (by rw [e]; rfl)
        obtain ⟨a, b, hab, ha, hb, hescape⟩ := ih hlater hps
        exact ⟨p :: a, b, by rw [hab]; rfl, by rw [sourceOf_cons, ha, hfront], hb, by simpa using hescape⟩
      have hfirst := hshown [] p ps rfl
      rw [sourceOf_cons] at h
      rcases List.append_eq_append_iff.1 h with ⟨front', hfront, hps⟩ | ⟨x, hsource, hx⟩
      · exact hbehind front' hfront hps
      · cases x with
        | nil => exact hbehind [] (by simpa using hsource.symm) (by simpa using hx.symm)
        | cons c x =>
            -- the colon stands in the first piece, so this is the colon itself
            obtain ⟨rfl, hrest⟩ := List.cons.inj hx
            have hmem : .char ':' ∈ p.source := by rw [hsource]; simp
            cases p with
            | char d =>
                cases front with
                | cons e front => simp [Piece.source] at hsource
                | nil =>
                    obtain ⟨rfl, rfl⟩ := List.cons.inj hsource
                    have hescape : endsEscaping passed = false := by simpa [hidesColon] using hfirst
                    exact ⟨[], ps, rfl, rfl, by simpa using hrest.symm, by simpa using hescape⟩
            | _ => exact absurd hmem (by simpa [hidesColon] using hfirst)

/-- Behind pieces that were passed over, the count ends at a border between pieces, behind no
backslash that takes the colon along. -/
theorem CountsRight.exists_border {passed ps : List Piece} (h : CountsRight (passed ++ ps))
    (hwhole : ∀ p ∈ ps, p.IsWhole) :
    ∃ a b, ps = a ++ b ∧ cutPseudo none (depthOf passed) (sourceOf ps) = (sourceOf a, sourceOf b) ∧
      (b ≠ [] → endsEscaping (passed ++ a) = false) := by
  induction ps generalizing passed with
  | nil => exact ⟨[], [], rfl, rfl, fun hne => absurd rfl hne⟩
  | cons p ps ih =>
      by_cases hshown : ∀ a q b, p :: ps = a ++ q :: b → hidesColon (passed ++ a) q = false
      · -- every colon from here on is seen by everyone
        have hparts := ScopeKind.cutPseudo_append none (depthOf passed) (sourceOf (p :: ps))
        rcases cutPseudo_snd none (depthOf passed) (sourceOf (p :: ps)) with hend | ⟨rest, hcolon⟩
        · rw [hend, List.append_nil] at hparts
          exact ⟨p :: ps, [], by simp, Prod.ext hparts hend, fun hne => absurd rfl hne⟩
        · rw [hcolon] at hparts
          obtain ⟨a, b, hab, ha, hb, hescape⟩ := exists_border_of_colon hshown hparts.symm
          exact ⟨a, .char ':' :: b, hab, Prod.ext ha.symm (by rw [hcolon, sourceOf_cons, hb]; rfl),
            fun _ => hescape⟩
      · -- a colon is hidden in this piece or behind it, so this piece does not disturb the count
        obtain ⟨a, q, b, hab, hhides⟩ : ∃ a q b, p :: ps = a ++ q :: b ∧
            hidesColon (passed ++ a) q = true := by simpa using hshown
        have hclear : p.isClear = true := by
          rw [hab, ← List.append_assoc] at h
          refine (h.of_append hhides).1 p ?_
          cases a with
          | nil => simp [(List.cons.inj hab).1]
          | cons _ a => simp [(List.cons.inj hab).1]
        obtain ⟨hp, hps⟩ := List.forall_mem_cons.1 hwhole
        by_cases hcolon : p = .char ':' ∧ depthOf passed = 0
        · refine ⟨[], p :: ps, rfl, ?_, fun _ => ?_⟩
          · rw [hcolon.1, hcolon.2]
            rfl
          · by_contra hescape
            have hhides : hidesColon passed p = true := by
              rw [hcolon.1]
              simpa [hidesColon] using hescape
            exact (h.of_append hhides).2 (by rw [hcolon.1]; rfl) hcolon.2
        · have hpast : p.isQuoted = false → .char ':' ∈ p.source → depthOf passed ≠ 0 := by
            intro hquoted hmem
            cases hp with
            | char _ _ =>
                rw [List.mem_singleton.1 hmem] at hcolon
                exact fun hdepth => hcolon ⟨rfl, hdepth⟩
            | quoted _ _ => cases hquoted
            | comment _ => exact (h.of_append (List.elem_iff.2 hmem)).2 rfl
          have hnext : CountsRight (passed ++ [p] ++ ps) := by simpa using h
          obtain ⟨a, b, hab, hcut, hescape⟩ := ih hnext hps
          refine ⟨p :: a, b, by rw [hab]; rfl, ?_, by simpa using hescape⟩
          rw [sourceOf_cons, cutPseudo_piece hp hclear hpast, ← depthOf_append_singleton, hcut]
          rfl

end Css

/-! ## Strict markers -/

namespace ScopeKind

theorem confine_strict_eq (marker s : Text) :
    strict.confine marker s = (cutPseudo none 0 s).1
      ++ ("[data-sergey-strict-".text ++ marker ++ "]".text) ++ (cutPseudo none 0 s).2 := by
  have hmark : [char '['] ++ Vocabulary.strictAttr marker ++ [char ']']
      = "[data-sergey-strict-".text ++ marker ++ "]".text := rfl
  rw [← hmark, confine]
  simp

/-- A selector of a rule that is read is a row of pieces that is written. -/
theorem exists_row_of_selector {css : Text} {sheet : Css.Stylesheet}
    (h : Css.Stylesheet.parse css = .ok sheet) {selectors declarations : List Text}
    (hrule : .rule selectors declarations ∈ sheet) {s : Text} (hs : s ∈ selectors) :
    ∃ row, Css.Written row ∧ s = Css.sourceOf row := by
  obtain ⟨passage, hwf, hyields, -⟩ := Css.exists_passage_of_mem h hrule
  obtain ⟨rows, -, rfl, -, hrows, -, -⟩ := Css.exists_rows_of_yields hwf hyields
  obtain ⟨row, hrow, rfl⟩ := List.mem_map.1 hs
  exact ⟨row, hrows.written row hrow, rfl⟩

/-- A strict marker is put into a selector at one place. It tears no token of the selector apart when
the strings and comments in front of the hidden colons do not disturb the count. -/
theorem confine_strict_spares {css : Text} {sheet : Css.Stylesheet}
    (h : Css.Stylesheet.parse css = .ok sheet) {selectors declarations : List Text}
    (hrule : .rule selectors declarations ∈ sheet) {s : Text} (hs : s ∈ selectors) (marker : Text) :
    ∃ i ≤ s.length, strict.confine marker s
        = s.take i ++ ("[data-sergey-strict-".text ++ marker ++ "]".text) ++ s.drop i ∧
      (Css.CountsRight (Css.pieces s) → Css.IsBetweenTokens s i) := by
  obtain ⟨front, rest, hcut⟩ : ∃ front rest, cutPseudo none 0 s = (front, rest) := ⟨_, _, rfl⟩
  have hparts : front ++ rest = s := by simpa [hcut] using cutPseudo_append none 0 s
  refine ⟨front.length, ?_, ?_, fun hcounts => ?_⟩
  · rw [← hparts, List.length_append]
    exact Nat.le_add_right _ _
  · rw [confine_strict_eq, hcut, ← hparts, List.take_left, List.drop_left]
  · obtain ⟨row, hwritten, rfl⟩ := exists_row_of_selector h hrule hs
    have hcounts : Css.CountsRight ([] ++ row) := by rwa [Css.pieces_sourceOf hwritten] at hcounts
    obtain ⟨a, b, rfl, hborder, hescape⟩ := hcounts.exists_border hwritten.isWhole
    obtain ⟨rfl, rfl⟩ := Prod.mk.inj (hcut.symm.trans hborder)
    exact Css.isBetweenTokens_of_append hwritten hescape

/-- A rule whose hidden colons do no harm: one is in a string, the others are in brackets. -/
def cloakedRule : Text := "a/* b */[x=\"y:z\"]:not(.sm\\:d, /* : */ c)::after \x7b e: f \x7d".text

/-- The selector of that rule. -/
def cloakedSelector : Text := "a/* b */[x=\"y:z\"]:not(.sm\\:d, /* : */ c)::after".text

theorem confine_strict_spares_cloakedRule :
    Css.Stylesheet.parse cloakedRule = .ok [.rule [cloakedSelector] ["e: f".text]] ∧
      Css.CountsRight (Css.pieces cloakedSelector) ∧
      ∃ i ≤ cloakedSelector.length, strict.confine "m1".text cloakedSelector
          = cloakedSelector.take i ++ "[data-sergey-strict-m1]".text ++ cloakedSelector.drop i ∧
        Css.IsBetweenTokens cloakedSelector i := by
  have hparse : Css.Stylesheet.parse cloakedRule
      = .ok [.rule [cloakedSelector] ["e: f".text]] := by decide +kernel
  have hcounts : Css.CountsRight (Css.pieces cloakedSelector) := by decide +kernel
  obtain ⟨i, hi, hconfine, hbetween⟩ := confine_strict_spares hparse List.mem_cons_self
    List.mem_cons_self "m1".text
  exact ⟨hparse, hcounts, i, hi, hconfine, hbetween hcounts⟩

/-- A rule with a colon behind a backslash, one in a comment, and one in a string behind a quote that
a backslash takes along. -/
def tornRule : Text := ".sm\\:flex, a/*:*/b, [x=\"\\\"]:\"] \x7b\x7d".text

/-- The selectors of that rule. -/
def tornSelectors : List Text := [".sm\\:flex".text, "a/*:*/b".text, "[x=\"\\\"]:\"]".text]

/-- The marker tears a token apart in each of the selectors, wherever it is said to stand. -/
theorem confine_strict_tears :
    Css.Stylesheet.parse tornRule = .ok [.rule tornSelectors []] ∧
      tornSelectors.map (strict.confine "m1".text)
        = [".sm\\[data-sergey-strict-m1]:flex".text, "a/*[data-sergey-strict-m1]:*/b".text,
          "[x=\"\\\"][data-sergey-strict-m1]:\"]".text] ∧
      ∀ s ∈ tornSelectors, ∀ i ≤ s.length, strict.confine "m1".text s
          = s.take i ++ "[data-sergey-strict-m1]".text ++ s.drop i →
        ¬ Css.IsBetweenTokens s i := by
  decide +kernel

end ScopeKind

end Stencil
