import Stencil.Proofs.Css.Reading

set_option autoImplicit false

/-! # Written pieces

What strings and comments are, without the functions that cut them off a text, and which rows of
pieces a text can be cut into: `Written`. A row that is written is read back as it is
(`pieces_sourceOf`), and a text in which no string and no comment is left open is cut into a row
that is written (`written_pieces`). So the pieces of a slice between two pieces of a text are the
pieces the text has there, wherever the reading of the slice begins.
-/

namespace Stencil.Css

open Text

/-! ## Strings, comments and rows -/

/-- What follows the quote that opens a string, as far as the quote that closes it. A backslash
takes the character after it along. -/
inductive IsStringTail (quote : CodePoint) : Text → Prop
  | close : IsStringTail quote [quote]
  | escaped (c : CodePoint) {s : Text} (hs : IsStringTail quote s) :
      IsStringTail quote ('\\' :: c :: s)
  | char {c : CodePoint} {s : Text} (hslash : c ≠ '\\') (hquote : c ≠ quote)
      (hs : IsStringTail quote s) : IsStringTail quote (c :: s)

/-- Whether a piece is what it says: a character that opens no string, a string with both its
quotes, or a comment that ends at the first `*/` after its opening mark. -/
inductive Piece.IsWhole : Piece → Prop
  | char {c : CodePoint} (hdouble : c ≠ '"') (hsingle : c ≠ '\'') : IsWhole (.char c)
  | quoted {quote : CodePoint} {tail : Text} (hquote : quote = '"' ∨ quote = '\'')
      (htail : IsStringTail quote tail) : IsWhole (.quoted (quote :: tail))
  | comment {inside : Text}
      (hinside : contains (inside ++ [CodePoint.char '*']) ['*', '/'] = false) :
      IsWhole (.comment
        ([CodePoint.char '/', .char '*'] ++ inside ++ [CodePoint.char '*', .char '/']))

/-- Whether a row of pieces can be read back: its pieces are whole, and no two characters make
up the mark that opens a comment. -/
inductive Written : List Piece → Prop
  | nil : Written []
  | cons {p : Piece} {ps : List Piece} (hp : p.IsWhole)
      (hjoint : p = .char '/' → ps.head? ≠ some (.char '*')) (hps : Written ps) : Written (p :: ps)

/-- Whether a piece is no string and no comment that is left open. -/
def Piece.isClosed : Piece → Bool
  | .openString _ => false
  | .openComment _ => false
  | _ => true

theorem Piece.IsWhole.isClosed {p : Piece} (h : p.IsWhole) : p.isClosed = true := by
  cases h <;> rfl

/-! ## Rows put together and taken apart -/

theorem Written.isWhole {ps : List Piece} (h : Written ps) : ∀ p ∈ ps, p.IsWhole := by
  induction h with
  | nil => simp
  | cons hp _ _ ih => exact List.forall_mem_cons.2 ⟨hp, ih⟩

theorem Written.isClosed {ps : List Piece} (h : Written ps) : ∀ p ∈ ps, p.isClosed = true :=
  fun p hp => (h.isWhole p hp).isClosed

theorem written_cons_iff {p : Piece} {ps : List Piece} :
    Written (p :: ps) ↔
      p.IsWhole ∧ (p = .char '/' → ps.head? ≠ some (.char '*')) ∧ Written ps := by
  constructor
  · intro h
    cases h with
    | cons hp hjoint hps => exact ⟨hp, hjoint, hps⟩
  · rintro ⟨hp, hjoint, hps⟩
    exact .cons hp hjoint hps

theorem written_append_iff {ps qs : List Piece} :
    Written (ps ++ qs) ↔ Written ps ∧ Written qs ∧
      (ps.getLast? = some (.char '/') → qs.head? ≠ some (.char '*')) := by
  induction ps with
  | nil => simp [Written.nil]
  | cons p ps ih =>
      rw [List.cons_append, written_cons_iff, written_cons_iff, ih]
      cases ps with
      | nil => simp [Written.nil, and_comm]
      | cons q ps =>
          simp only [List.cons_append, List.head?_cons, List.getLast?_cons_cons]
          tauto

theorem Written.append {ps qs : List Piece} (hps : Written ps) (hqs : Written qs)
    (hlast : ps.getLast? ≠ some (.char '/')) : Written (ps ++ qs) :=
  written_append_iff.2 ⟨hps, hqs, fun e => absurd e hlast⟩

/-- Every slice of a row that is written is written. -/
theorem Written.of_infix {ps qs : List Piece} (h : Written qs) (hps : ps <:+: qs) : Written ps := by
  obtain ⟨before, behind, rfl⟩ := hps
  exact (written_append_iff.1 (written_append_iff.1 h).1).2.1

/-- Characters that open nothing, and no comment together, are written. -/
theorem written_chars {s : Text} (hs : ∀ c ∈ s, c ≠ '"' ∧ c ≠ '\'' ∧ c ≠ '/') :
    Written (s.map .char) := by
  induction s with
  | nil => exact .nil
  | cons c s ih =>
      obtain ⟨⟨hdouble, hsingle, hslash⟩, hs⟩ := List.forall_mem_cons.1 hs
      exact .cons (.char hdouble hsingle) (fun e => absurd (Piece.char.inj e) hslash) (ih hs)

@[simp] theorem sourceOf_chars (s : Text) : sourceOf (s.map .char) = s := by
  induction s with
  | nil => rfl
  | cons c s ih => rw [List.map_cons, sourceOf_cons, ih]; rfl

/-! ## Reading a row back -/

theorem cutString?_append {quote : CodePoint} {tail : Text} (h : IsStringTail quote tail)
    (hquote : quote ≠ '\\') (r : Text) : cutString? quote (tail ++ r) = some tail := by
  induction h with
  | close =>
      rw [List.singleton_append, cutString?]
      · simp [hquote]
      · exact fun c s e => absurd e hquote
  | escaped c hs ih =>
      rw [List.cons_append, List.cons_append, cutString?, ih]
      rfl
  | @char c s hslash hne hs ih =>
      rw [List.cons_append, cutString?]
      · simp [hslash, hne, ih]
      · exact fun d s e => absurd e hslash

/-- The first closing mark of a comment stands behind its inside. -/
theorem cut?_comment {inside : Text} (h : contains (inside ++ [char '*']) ['*', '/'] = false)
    (r : Text) : cut? ['*', '/'] (inside ++ [char '*', char '/'] ++ r) = some (inside, r) := by
  refine cut?_append fun a b hab hb => (after?_eq_none_iff _ _).2 fun t e => ?_
  rw [contains_eq_false_iff] at h
  cases b with
  | nil => exact hb rfl
  | cons x b =>
      cases b with
      | nil => simp at e
      | cons y b =>
          -- both characters of the mark would stand in the inside
          simp only [List.cons_append, List.cons.injEq] at e
          obtain ⟨rfl, rfl, -⟩ := e
          exact h a (b ++ [char '*']) (by simp [hab])

theorem Piece.IsWhole.firstPiece_append {p : Piece} (hp : p.IsWhole) {c : CodePoint} {s : Text}
    (hsource : p.source = c :: s) {r : Text} (hr : p = .char '/' → r.head? ≠ some (.char '*')) :
    firstPiece c (s ++ r) = p := by
  cases hp with
  | @char d hdouble hsingle =>
      obtain ⟨rfl, rfl⟩ := List.cons.inj hsource
      have hquote : ¬ (decide (d = '"') || decide (d = '\'')) = true := by simp [hdouble, hsingle]
      have hcomment : ¬ (decide (d = '/') && r.head? == some (.char '*')) = true := by
        simpa using fun e => hr (by rw [e])
      rw [List.nil_append, firstPiece, if_neg hquote, if_neg hcomment]
  | @quoted quote tail hquote htail =>
      obtain ⟨rfl, rfl⟩ := List.cons.inj hsource
      have hslash : quote ≠ '\\' := by rcases hquote with rfl | rfl <;> decide
      have hq : (decide (quote = '"') || decide (quote = '\'')) = true := by simpa using hquote
      rw [firstPiece, if_pos hq, cutString?_append htail hslash]
  | @comment inside hinside =>
      obtain ⟨rfl, hs⟩ := List.cons.inj hsource
      obtain rfl : CodePoint.char '*' :: (inside ++ [CodePoint.char '*', .char '/']) = s :=
        hs
      rw [firstPiece, if_neg (by decide), if_pos (by rfl), List.cons_append, List.drop_succ_cons,
        List.drop_zero, cut?_comment hinside r]

theorem piecesFrom_eq_pieces_drop (k : Nat) (s : Text) : piecesFrom k s = pieces (s.drop k) := by
  induction s generalizing k with
  | nil => cases k <;> simp [piecesFrom, pieces]
  | cons c s ih =>
      cases k with
      | zero => rfl
      | succ k => rw [piecesFrom, ih, List.drop_succ_cons]

/-- A text is cut into its first piece and the pieces of the rest. -/
theorem pieces_cons (c : CodePoint) (s : Text) :
    ∃ r, c :: s = (firstPiece c s).source ++ r ∧ pieces (c :: s) = firstPiece c s :: pieces r := by
  obtain ⟨r, e, hr⟩ := exists_drop_firstPiece c s
  exact ⟨r, e, by rw [pieces, piecesFrom, piecesFrom_eq_pieces_drop, hr]⟩

theorem Piece.IsWhole.exists_source {p : Piece} (hp : p.IsWhole) :
    ∃ c s, p.source = c :: s ∧ (c = '*' → p = .char '*') := by
  cases hp with
  | @char c => exact ⟨c, [], rfl, fun e => by rw [e]⟩
  | @quoted quote tail hquote htail =>
      exact ⟨quote, tail, rfl, fun e => by rcases hquote with h | h <;> rw [h] at e <;> cases e⟩
  | @comment inside => exact ⟨'/', _, rfl, fun e => absurd e (by decide)⟩

/-- A row that is written is read back as it is, also with some text behind it that does not make
up the mark that opens a comment with its last character. -/
theorem pieces_sourceOf_append {ps : List Piece} (h : Written ps) {r : Text}
    (hr : ps.getLast? = some (.char '/') → r.head? ≠ some (.char '*')) :
    pieces (sourceOf ps ++ r) = ps ++ pieces r := by
  induction h with
  | nil => rfl
  | @cons p ps hp hjoint hps ih =>
      obtain ⟨c, s, hsource, -⟩ := hp.exists_source
      have hnext : p = .char '/' → (sourceOf ps ++ r).head? ≠ some (.char '*') := by
        intro hslash
        cases hps with
        | nil => exact hr (by rw [hslash]; rfl)
        | @cons q qs hq hqjoint hqs =>
            intro hstar
            obtain ⟨d, t, hd, hchar⟩ := hq.exists_source
            rw [sourceOf_cons, hd] at hstar
            exact hjoint hslash (congrArg some (hchar (by simpa using hstar)))
      have hrest : pieces (sourceOf ps ++ r) = ps ++ pieces r := by
        cases ps with
        | nil => rfl
        | cons q qs => exact ih (by simpa using hr)
      have hfirst : firstPiece c (s ++ (sourceOf ps ++ r)) = p := hp.firstPiece_append hsource hnext
      obtain ⟨t, e, hpieces⟩ := pieces_cons c (s ++ (sourceOf ps ++ r))
      rw [hfirst] at e hpieces
      have ht : sourceOf ps ++ r = t := by
        rw [hsource, List.cons_append] at e
        exact List.append_cancel_left (List.cons.inj e).2
      rw [sourceOf_cons, hsource, List.append_assoc, List.cons_append, hpieces, ← ht, hrest,
        List.cons_append]

/-- A row that is written is read back as it is. -/
theorem pieces_sourceOf {ps : List Piece} (h : Written ps) : pieces (sourceOf ps) = ps := by
  have key := pieces_sourceOf_append h (r := []) (by simp)
  rwa [List.append_nil, show pieces [] = [] from rfl, List.append_nil] at key

/-! ## The row a text is cut into -/

theorem isStringTail_of_cutString? {quote : CodePoint} {s tail : Text}
    (h : cutString? quote s = some tail) : IsStringTail quote tail := by
  induction s using cutString?.induct quote generalizing tail with
  | case1 => simp [cutString?] at h
  | case2 c s ih =>
      simp only [cutString?, Option.map_eq_some_iff] at h
      obtain ⟨tail, htail, rfl⟩ := h
      exact .escaped c (ih htail)
  | case3 s hnot =>
      cases s with
      | nil => simp [cutString?] at h
      | cons c s => exact absurd rfl (hnot c s rfl)
  | case4 s hnot hne =>
      rw [cutString?] at h
      · simp only [hne, if_false, if_true, Option.some.injEq] at h
        exact h ▸ .close
      · exact hnot
  | case5 c s hnot hne hq ih =>
      rw [cutString?] at h
      · simp only [hne, hq, if_false, Option.map_eq_some_iff] at h
        obtain ⟨tail, htail, rfl⟩ := h
        exact .char hne hq (ih htail)
      · exact hnot

/-- The closing mark that is found is the first one: none begins in the inside. -/
theorem contains_of_cut?_comment {s inside r : Text} (h : cut? ['*', '/'] s = some (inside, r)) :
    contains (inside ++ [char '*']) ['*', '/'] = false := by
  induction s generalizing inside with
  | nil => simp [cut?, after?] at h
  | cons c s ih =>
      rw [cut?] at h
      split at h
      · obtain ⟨rfl, -⟩ := Prod.mk.inj (Option.some.inj h)
        decide
      · rename_i hnone
        obtain ⟨⟨front, rest⟩, hfront, e⟩ := Option.map_eq_some_iff.1 h
        obtain ⟨rfl, rfl⟩ := Prod.mk.inj e
        rw [contains_eq_false_iff]
        rintro a b hab
        cases a with
        | nil =>
            -- the mark would begin at this character, where none was found
            rw [eq_of_cut? hfront] at hnone
            cases front with
            | nil => simp at hab
            | cons d front =>
                simp only [List.cons_append, List.nil_append, List.cons.injEq] at hab
                simp [after?, hab.1, hab.2.1] at hnone
        | cons x a =>
            rw [List.cons_append, List.cons_append, List.cons_append, List.cons.injEq] at hab
            exact (contains_eq_false_iff _ _).1 (ih hfront) a b hab.2

theorem isWhole_firstPiece {c : CodePoint} {s : Text} (h : (firstPiece c s).isClosed = true) :
    (firstPiece c s).IsWhole := by
  rw [firstPiece] at h ⊢
  split at h
  · rename_i hc
    rw [if_pos hc]
    split at h
    · rename_i front hfront
      exact .quoted (by simpa using hc) (isStringTail_of_cutString? hfront)
    · cases h
  · rename_i hc
    rw [if_neg hc]
    split at h
    · rename_i hopen
      rw [if_pos hopen]
      split at h
      · rename_i front rest hcut
        exact .comment (contains_of_cut?_comment hcut)
      · cases h
    · rename_i hopen
      rw [if_neg hopen]
      simp only [Bool.or_eq_true, decide_eq_true_eq, not_or] at hc
      exact .char hc.1 hc.2

/-- A slash on its own is not followed by a star. -/
theorem head?_ne_of_firstPiece {c : CodePoint} {s : Text} (h : firstPiece c s = .char '/') :
    c = '/' ∧ s.head? ≠ some (.char '*') := by
  rw [firstPiece] at h
  split at h
  · split at h <;> cases h
  · split at h
    · split at h <;> cases h
    · rename_i hopen
      obtain rfl := Piece.char.inj h
      exact ⟨rfl, by simpa using hopen⟩

/-- A text in which no string and no comment is left open is cut into a row that is written. -/
theorem written_pieces {s : Text} (h : ∀ p ∈ pieces s, p.isClosed = true) : Written (pieces s) := by
  induction hlen : s.length using Nat.strongRecOn generalizing s with
  | ind n ih =>
    cases s with
    | nil => exact .nil
    | cons c s =>
        obtain ⟨r, e, hpieces⟩ := pieces_cons c s
        rw [hpieces] at h ⊢
        obtain ⟨hfirst, hrest⟩ := List.forall_mem_cons.1 h
        have hwhole := isWhole_firstPiece hfirst
        obtain ⟨d, t, hsource, -⟩ := hwhole.exists_source
        have hlt : r.length < n := by
          have hlength := congrArg List.length e
          rw [hsource] at hlength
          simp only [List.length_cons, List.length_append] at hlength
          rw [← hlen, List.length_cons]
          omega
        refine .cons hwhole (fun hslash hhead => ?_) (ih _ hlt hrest rfl)
        obtain ⟨rfl, hstar⟩ := head?_ne_of_firstPiece hslash
        rw [hslash] at e
        obtain rfl : s = r := (List.cons.inj e).2
        apply hstar
        rw [← sourceOf_pieces s]
        cases hps : pieces s with
        | nil => rw [hps] at hhead; cases hhead
        | cons p ps =>
            rw [hps, List.head?_cons] at hhead
            rw [sourceOf_cons, Option.some.inj hhead]
            rfl

end Stencil.Css
