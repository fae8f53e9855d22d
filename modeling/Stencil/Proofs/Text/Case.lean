import Mathlib.Tactic.Common
import Stencil.Proofs.Text.CodePoint
import Stencil.Text.Blank
import Stencil.Text.Case

set_option autoImplicit false

/-! # Lower case is settled

The lower case of a text has no capitals in it: each run of capitals goes to characters that
are in no run. So taking the lower case again changes nothing, and names that are in lower case
compare as they are.
-/

namespace Stencil.Text

/-! ## Runs of capitals -/

/-- Whether a code point is in a run of capitals. -/
def inRun (n : Nat) : Nat × Nat × Nat × Int → Bool
  | (low, high, step, _) => low ≤ n && n ≤ high && (n - low) % step == 0

/-- Whether what a run of capitals goes to lies outside a range of code points. -/
def avoids (range : Nat × Nat) : Nat × Nat × Nat × Int → Bool
  | (low, high, _, distance) =>
      (high : Int) + distance < range.1 || (range.2 : Int) < low + distance

/-- Whether no capital of a run goes to a capital of another. Two runs of step two may lie in
between each other. -/
def misses : Nat × Nat × Nat × Int → Nat × Nat × Nat × Int → Bool
  | (low, high, step, distance), (low', high', step', _) =>
      avoids (low', high') (low, high, step, distance) ||
        (step' == 2 && (step == 2 || low == high) && ((low : Int) + distance + low') % 2 == 1)

/-- Code points beyond ASCII that no capital goes to: blanks, the capital with a lower case of
two characters, and what is no character. -/
def barredRanges : List (Nat × Nat) :=
  [(0x85, 0x85), (0xA0, 0xA0), (0x130, 0x130), (0x1680, 0x1680), (0x2000, 0x205F),
  (0x3000, 0x3000), (0xD800, 0xDFFF)]

/-- Whether a run of capitals goes to letters. -/
def goesToLetters : Nat × Nat × Nat × Int → Bool
  | (low, high, step, distance) =>
      0x60 < low + distance && high + distance < 0x110000 &&
        barredRanges.all (avoids · (low, high, step, distance))

/-- The first and the last code point that a run of capitals goes to. -/
def goals : Nat × Nat × Nat × Int → Nat × Nat
  | (low, high, _, distance) => ((low + distance).toNat, (high + distance).toNat)

/-- Whether the goals of a run of a step miss another run, in natural numbers, which are quick to
compare for all pairs of runs. -/
def goalsMiss (step : Nat) (goals : Nat × Nat) : Nat × Nat × Nat × Int → Bool
  | (low, high, step', _) =>
      Nat.blt goals.2 low || Nat.blt high goals.1 ||
        (Nat.beq step' 2 && (Nat.beq step 2 || Nat.beq goals.1 goals.2) &&
          Nat.beq ((goals.1 + low) % 2) 1)

theorem misses_of_goalsMiss {r r' : Nat × Nat × Nat × Int} (hr : goesToLetters r = true)
    (h : goalsMiss r.2.2.1 (goals r) r' = true) : misses r r' = true := by
  obtain ⟨low, high, step, distance⟩ := r
  obtain ⟨low', high', step', distance'⟩ := r'
  simp only [goesToLetters, Bool.and_eq_true, decide_eq_true_eq] at hr
  simp only [goalsMiss, goals, Bool.or_eq_true, Bool.and_eq_true, Nat.blt_eq, Nat.beq_eq] at h
  simp only [misses, avoids, Bool.or_eq_true, Bool.and_eq_true, decide_eq_true_eq, beq_iff_eq]
  omega

theorem capitalRuns_goals :
    (capitalRuns.all fun r => goesToLetters r && capitalRuns.all (goalsMiss r.2.2.1 (goals r)))
      = true := by
  decide +kernel

/-- Every run of capitals goes to letters that are in no run. -/
theorem capitalRuns_settled {r : Nat × Nat × Nat × Int} (hr : r ∈ capitalRuns) :
    goesToLetters r = true ∧ ∀ r' ∈ capitalRuns, misses r r' = true := by
  have h := List.all_eq_true.1 capitalRuns_goals r hr
  rw [Bool.and_eq_true, List.all_eq_true] at h
  exact ⟨h.1, fun r' hr' => misses_of_goalsMiss h.1 (h.2 r' hr')⟩

/-- What a capital goes to lies outside a range that its run avoids. -/
theorem not_mem_of_avoids {low high step n m : Nat} {distance : Int} {range : Nat × Nat}
    (h : avoids range (low, high, step, distance) = true) (hn : low ≤ n) (hn' : n ≤ high)
    (hm : (m : Int) = n + distance) : m < range.1 ∨ range.2 < m := by
  simp only [avoids, Bool.or_eq_true, decide_eq_true_eq] at h
  omega

theorem not_inRun_of_misses {low high step n m : Nat} {distance : Int} {r : Nat × Nat × Nat × Int}
    (h : misses (low, high, step, distance) r = true) (hn : inRun n (low, high, step, distance) = true)
    (hm : (m : Int) = n + distance) : inRun m r = false := by
  obtain ⟨low', high', step', distance'⟩ := r
  simp only [inRun, Bool.and_eq_true, decide_eq_true_eq, beq_iff_eq] at hn
  obtain ⟨⟨hlow, hhigh⟩, hstep⟩ := hn
  rw [Bool.eq_false_iff]
  simp only [inRun, ne_eq, Bool.and_eq_true, decide_eq_true_eq, beq_iff_eq]
  rintro ⟨⟨hlow', hhigh'⟩, hstep'⟩
  simp only [misses, Bool.or_eq_true, Bool.and_eq_true, beq_iff_eq] at h
  rcases h with h | ⟨⟨rfl, rfl | rfl⟩, hodd⟩
  · have := not_mem_of_avoids h hlow hhigh hm
    omega
  · omega
  · obtain rfl : n = low := by omega
    omega

/-! ## Small characters -/

/-- A character that is its own lower case wherever it stands. -/
structure IsSmall (c : CodePoint) : Prop where
  not_sigma : c ≠ 'Σ'
  lowerChar : lowerChar c = [c]

/-- What the lower case of a text may bring into it: no blank, and no ASCII mark or capital. -/
structure IsLetterLike (c : CodePoint) : Prop where
  not_low : 0x60 < c.toNat
  not_blank : isBlank c = false

theorem ascii_settled : ∀ n < 0x80, (CodePoint.ofNat n).toLower.toNat < 0x80 ∧
    (CodePoint.ofNat n).toLower.toLower = (CodePoint.ofNat n).toLower ∧
    (0x60 < n → (CodePoint.ofNat n).toLower = CodePoint.ofNat n) ∧
    ((CodePoint.ofNat n).toLower = CodePoint.ofNat n ∨
      0x60 < (CodePoint.ofNat n).toLower.toNat ∧ isBlank (CodePoint.ofNat n).toLower = false) := by
  decide +kernel

theorem isSmall_of_ascii {c : CodePoint} (h : c.toNat < 0x80) (hc : c.toLower = c) : IsSmall c := by
  constructor
  · rintro rfl
    exact absurd h (by decide)
  · show (if c.toNat < 0x80 then _ else _) = _
    rw [if_pos h, hc]

/-- A character beyond ASCII that is in no run stays as it is. -/
theorem lowerChar_of_find?_none {c : CodePoint} (hascii : ¬ c.toNat < 0x80) (hc : c.toNat ≠ 0x130)
    (hfind : capitalRuns.find? (inRun c.toNat) = none) : lowerChar c = [c] := by
  unfold lowerChar
  rw [if_neg hascii, if_neg hc]
  unfold inRun at hfind
  rw [hfind]

/-- A capital of a run goes as far as the others of its run. -/
theorem lowerChar_of_find?_some {c : CodePoint} (hascii : ¬ c.toNat < 0x80) (hc : c.toNat ≠ 0x130)
    {low high step : Nat} {distance : Int}
    (hfind : capitalRuns.find? (inRun c.toNat) = some (low, high, step, distance)) :
    lowerChar c = [CodePoint.ofNat ((c.toNat : Int) + distance).toNat] := by
  unfold lowerChar
  rw [if_neg hascii, if_neg hc]
  unfold inRun at hfind
  rw [hfind]

/-- A character beyond ASCII that is in no run is in lower case. -/
theorem isSmall_of_not_inRun {c : CodePoint} (h : 0x80 ≤ c.toNat) (hc : c.toNat ≠ 0x130)
    (hrun : ∀ r ∈ capitalRuns, inRun c.toNat r = false) : IsSmall c := by
  constructor
  · rintro rfl
    exact absurd (hrun (0x3A3, 0x3AB, 1, 32) (by decide)) (by decide)
  · have hfind : capitalRuns.find? (inRun c.toNat) = none :=
      List.find?_eq_none.2 fun r hr => by rw [hrun r hr]; decide
    exact lowerChar_of_find?_none (by omega) hc hfind

/-- A capital of a run goes to a letter that is no capital. -/
theorem run_settled {n low high step : Nat} {distance : Int}
    (hr : (low, high, step, distance) ∈ capitalRuns)
    (hn : inRun n (low, high, step, distance) = true) :
    IsSmall (CodePoint.ofNat ((n : Int) + distance).toNat) ∧
      IsLetterLike (CodePoint.ofNat ((n : Int) + distance).toNat) := by
  obtain ⟨hletters, hmisses⟩ := capitalRuns_settled hr
  simp only [goesToLetters, Bool.and_eq_true, decide_eq_true_eq, List.all_eq_true] at hletters
  obtain ⟨⟨hlow, hhigh⟩, hbarred⟩ := hletters
  have hin := hn
  simp only [inRun, Bool.and_eq_true, decide_eq_true_eq] at hin
  obtain ⟨⟨hn₁, hn₂⟩, -⟩ := hin
  obtain ⟨m, hm⟩ : ∃ m : Nat, (m : Int) = n + distance := ⟨((n : Int) + distance).toNat, by omega⟩
  have hout : ∀ range ∈ barredRanges, m < range.1 ∨ range.2 < m := fun range hrange =>
    not_mem_of_avoids (hbarred range hrange) hn₁ hn₂ hm
  simp only [barredRanges, List.forall_mem_cons, List.not_mem_nil, false_implies, implies_true,
    and_true] at hout
  have hc : (CodePoint.ofNat m).toNat = m := by
    refine CodePoint.toNat_ofNat ?_
    show m < 0xD800 ∨ 0xDFFF < m ∧ m < 0x110000
    omega
  rw [← hm, Int.toNat_natCast]
  refine ⟨?_, by rw [hc]; omega, ?_⟩
  · by_cases hascii : m < 0x80
    · exact isSmall_of_ascii (by rwa [hc]) ((ascii_settled m hascii).2.2.1 (by omega))
    · refine isSmall_of_not_inRun (by omega) (by omega) fun r hr => ?_
      rw [hc]
      exact not_inRun_of_misses (hmisses r hr) hn hm
  · rw [Bool.eq_false_iff, ne_eq, isBlank]
    simp only [hc, Bool.or_eq_true, Bool.and_eq_true, decide_eq_true_eq, beq_iff_eq]
    omega

/-- A character goes to small characters: to itself alone, or to letters. -/
theorem lowerChar_settled (c : CodePoint) (hc : c ≠ 'Σ') :
    ∀ d ∈ lowerChar c, IsSmall d ∧ (d = c ∨ IsLetterLike d) := by
  by_cases hascii : c.toNat < 0x80
  · obtain ⟨hlow, hagain, -, hor⟩ := ascii_settled c.toNat hascii
    rw [CodePoint.ofNat_toNat] at hlow hagain hor
    have hlower : lowerChar c = [c.toLower] := if_pos hascii
    rw [hlower]
    rintro d hd
    obtain rfl := List.mem_singleton.1 hd
    exact ⟨isSmall_of_ascii hlow hagain, hor.imp id fun h => ⟨h.1, h.2⟩⟩
  · by_cases htwo : c.toNat = 0x130
    · have hlower : lowerChar c = [char 'i', .char '\u0307'] := by
        unfold lowerChar
        rw [if_neg hascii, if_pos htwo]
      rw [hlower]
      intro d hd
      rcases List.mem_cons.1 hd with rfl | hd
      · exact ⟨isSmall_of_ascii (by decide) (by decide), Or.inr ⟨by decide, by decide⟩⟩
      · obtain rfl := List.mem_singleton.1 hd
        exact ⟨isSmall_of_not_inRun (by decide) (by decide) (by decide +kernel),
          Or.inr ⟨by decide, by decide⟩⟩
    · intro d hd
      cases hfind : capitalRuns.find? (inRun c.toNat) with
      | some r =>
          obtain ⟨low, high, step, distance⟩ := r
          rw [lowerChar_of_find?_some hascii htwo hfind] at hd
          obtain rfl := List.mem_singleton.1 hd
          have := run_settled (List.mem_of_find?_eq_some hfind) (List.find?_some hfind)
          exact ⟨this.1, Or.inr this.2⟩
      | none =>
          rw [lowerChar_of_find?_none hascii htwo hfind] at hd
          obtain rfl := List.mem_singleton.1 hd
          refine ⟨isSmall_of_not_inRun (by omega) htwo fun r hr => ?_, Or.inl rfl⟩
          exact Bool.eq_false_iff.2 (List.find?_eq_none.1 hfind r hr)

/-! ## Small texts -/

theorem isSmall_sigma (final : Bool) :
    IsSmall (if final then 'ς' else 'σ') ∧ IsLetterLike (if final then 'ς' else 'σ') := by
  cases final with
  | true =>
      exact ⟨isSmall_of_not_inRun (by decide) (by decide) (by decide +kernel), by decide, by decide⟩
  | false =>
      exact ⟨isSmall_of_not_inRun (by decide) (by decide) (by decide +kernel), by decide, by decide⟩

theorem lowerFrom_settled (before s : Text) :
    ∀ d ∈ lowerFrom before s, IsSmall d ∧ (d ∈ s ∨ IsLetterLike d) := by
  induction s generalizing before with
  | nil => simp [lowerFrom]
  | cons c s ih =>
      intro d hd
      rw [lowerFrom, List.mem_append] at hd
      rcases hd with hd | hd
      · split at hd
        · obtain rfl := List.mem_singleton.1 hd
          have := isSmall_sigma (meetsCased before && !meetsCased s)
          exact ⟨this.1, Or.inr this.2⟩
        · rename_i hc
          obtain ⟨hsmall, hor⟩ := lowerChar_settled c hc d hd
          exact ⟨hsmall, hor.imp (fun e => List.mem_cons.2 (Or.inl e)) id⟩
      · obtain ⟨hsmall, hor⟩ := ih (c :: before) d hd
        exact ⟨hsmall, hor.imp (List.mem_cons_of_mem c) id⟩

theorem lowerFrom_eq_self {s : Text} (h : ∀ c ∈ s, IsSmall c) (before : Text) :
    lowerFrom before s = s := by
  induction s generalizing before with
  | nil => rfl
  | cons c s ih =>
      have hc := h c (by simp)
      rw [lowerFrom, if_neg hc.not_sigma, hc.lowerChar, ih fun d hd => h d (by simp [hd])]
      rfl

/-- Lower case is reached at once. -/
theorem lower_lower (s : Text) : lower (lower s) = lower s :=
  lowerFrom_eq_self (fun d hd => (lowerFrom_settled [] s d hd).1) []

theorem IsSmall.toLower {c : CodePoint} (h : IsSmall c) : c.toLower = c := by
  by_cases hascii : c.toNat < 0x80
  · have hlower : Text.lowerChar c = [c.toLower] := if_pos hascii
    rw [h.lowerChar] at hlower
    exact (List.singleton_inj.1 hlower).symm
  · cases c with
    | char c =>
        refine congrArg CodePoint.char (dif_neg fun hc => hascii ?_)
        have : c.toNat ≤ 0x5A := hc.2
        show c.toNat < 0x80
        omega
    | lone n => rfl

theorem map_toLower_eq_self {s : Text} (h : ∀ c ∈ s, c.toLower = c) :
    s.map CodePoint.toLower = s := by
  conv_rhs => rw [← List.map_id s]
  exact List.map_congr_left h

/-- What is in lower case holds no capital ASCII letter. -/
theorem map_toLower_lower (s : Text) : (lower s).map CodePoint.toLower = lower s :=
  map_toLower_eq_self fun c hc => (lowerFrom_settled [] s c hc).1.toLower

theorem lowerChar_ne_nil (c : CodePoint) : lowerChar c ≠ [] := by
  unfold lowerChar
  dsimp only
  split_ifs
  · simp
  · simp
  · split <;> simp

theorem lower_ne_nil {s : Text} (h : s ≠ []) : lower s ≠ [] := by
  obtain ⟨c, s, rfl⟩ := List.exists_cons_of_ne_nil h
  rw [lower, lowerFrom]
  refine List.append_ne_nil_of_left_ne_nil ?_ _
  split
  · simp
  · exact lowerChar_ne_nil c

end Stencil.Text
