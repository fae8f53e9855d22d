import Mathlib.Data.List.Induction
import Stencil.Proofs.Css.Written

set_option autoImplicit false

/-! # Rows split at the top level

Splitting a text at a separator, told in pieces: `cutRow` cuts a row where the separator stands
and no parenthesis or bracket is open, and `topLevelParts` gives the trimmed sources of what it
cuts (`topLevelParts_sourceOf`), so that it never fails on a row that is written. What a row is
cut into are parts without a separator at their top level, all but the last of which close what
they open: `AreParts`. This is what is left when the parts are trimmed and the empty ones are
dropped (`AreParts.trim`), and it is all that is needed for the parts to be found again.
-/

namespace Stencil.Css

open Text

/-! ## Open marks -/

/-- The marks that close what is open after a piece, the innermost first. -/
def stackStep (stack : Text) : Piece → Text
  | .char c =>
      match closerOf? c with
      | some closer => closer :: stack
      | none => if stack.head? = some c then stack.drop 1 else stack
  | _ => stack

/-- The marks that close what is open after some pieces, the innermost first. -/
def stackAfter (stack : Text) (ps : List Piece) : Text := ps.foldl stackStep stack

/-- Whether a text closes all the parentheses and brackets that it opens. -/
def ClosesBrackets (s : Text) : Prop := stackAfter [] (pieces s) = []

instance (s : Text) : Decidable (ClosesBrackets s) := inferInstanceAs (Decidable (_ = _))

theorem stackAfter_append (stack : Text) (ps qs : List Piece) :
    stackAfter stack (ps ++ qs) = stackAfter (stackAfter stack ps) qs :=
  List.foldl_append ..

/-- Whether a separator neither opens nor closes anything, and is not blank. -/
structure IsSeparator (sep : CodePoint) : Prop where
  opens : closerOf? sep = none
  blank : isBlank sep = false

theorem isSeparator_comma : IsSeparator ',' := ⟨rfl, rfl⟩

theorem isSeparator_semicolon : IsSeparator ';' := ⟨rfl, rfl⟩

/-! ## Cutting a row -/

/-- Puts some pieces at the front of the first of some rows. -/
def joinFirst (front : List Piece) : List (List Piece) → List (List Piece)
  | [] => [front]
  | row :: rows => (front ++ row) :: rows

/-- The rows between the separators at the top level of a row. -/
def cutRow (sep : CodePoint) : Text → List Piece → List (List Piece)
  | _, [] => [[]]
  | stack, p :: ps =>
      if p = .char sep ∧ stack = [] then [] :: cutRow sep stack ps
      else joinFirst [p] (cutRow sep (stackStep stack p) ps)

theorem joinFirst_ne_nil (front : List Piece) (rows : List (List Piece)) :
    joinFirst front rows ≠ [] := by
  cases rows <;> simp [joinFirst]

theorem cutRow_ne_nil (sep : CodePoint) (stack : Text) (ps : List Piece) :
    cutRow sep stack ps ≠ [] := by
  cases ps with
  | nil => simp [cutRow]
  | cons p ps =>
      rw [cutRow]
      split
      exacts [by simp, joinFirst_ne_nil _ _]

theorem joinFirst_joinFirst (a b : List Piece) (rows : List (List Piece)) :
    joinFirst a (joinFirst b rows) = joinFirst (a ++ b) rows := by
  cases rows <;> simp [joinFirst]

theorem map_sourceOf_joinFirst (p : Piece) {rows : List (List Piece)} (h : rows ≠ []) :
    (joinFirst [p] rows).map sourceOf = extendFirst p.source (rows.map sourceOf) := by
  cases rows with
  | nil => exact absurd rfl h
  | cons row rows => simp [joinFirst, extendFirst]

/-- The parts of a row in which nothing is left open are the sources of the rows it is cut into. -/
theorem partsFrom_eq {sep : CodePoint} (hsep : IsSeparator sep) {ps : List Piece}
    (hclosed : ∀ p ∈ ps, p.isClosed = true) (stack : Text) (index : Nat) :
    partsFrom sep stack index ps = .ok ((cutRow sep stack ps).map sourceOf) := by
  induction ps generalizing stack index with
  | nil => rfl
  | cons p ps ih =>
      obtain ⟨hp, hps⟩ := List.forall_mem_cons.1 hclosed
      have hextend : ∀ stack index, (partsFrom sep stack index ps).map (extendFirst p.source)
          = .ok ((joinFirst [p] (cutRow sep stack ps)).map sourceOf) := by
        intro stack index
        rw [ih hps, map_sourceOf_joinFirst p (cutRow_ne_nil sep stack ps)]
        rfl
      cases p with
      | char c =>
          rw [partsFrom, cutRow, stackStep]
          cases hcloser : closerOf? c with
          | some closer =>
              have hne : ¬ (Piece.char c = .char sep ∧ stack = []) := by
                rintro ⟨e, -⟩
                rw [Piece.char.inj e, hsep.opens] at hcloser
                cases hcloser
              rw [if_neg hne]
              exact hextend _ _
          | none =>
              by_cases hhead : stack.head? = some c
              · have hne : ¬ (Piece.char c = .char sep ∧ stack = []) := by
                  rintro ⟨-, e⟩
                  rw [e] at hhead
                  cases hhead
                rw [if_neg hne]
                simp only [if_pos hhead]
                exact hextend _ _
              · simp only [if_neg hhead]
                by_cases htop : c = sep ∧ stack = []
                · obtain ⟨rfl, rfl⟩ := htop
                  rw [if_pos (by simp), if_pos ⟨rfl, rfl⟩, ih hps]
                  rfl
                · rw [if_neg (by simpa using htop), if_neg (by simpa using htop)]
                  exact hextend _ _
      | quoted s =>
          rw [partsFrom, cutRow, if_neg (by simp)]
          · exact hextend _ _
          · simp
          · simp
          · simp
      | comment s =>
          rw [partsFrom, cutRow, if_neg (by simp)]
          · exact hextend _ _
          · simp
          · simp
          · simp
      | openString s => cases hp
      | openComment s => cases hp

/-! ## Rows without a separator at the top level -/

/-- Whether no separator stands at the top level of a row. -/
def IsUncut (sep : CodePoint) : Text → List Piece → Prop
  | _, [] => True
  | stack, p :: ps => ¬ (p = .char sep ∧ stack = []) ∧ IsUncut sep (stackStep stack p) ps

theorem isUncut_append {sep : CodePoint} {stack : Text} {ps qs : List Piece} :
    IsUncut sep stack (ps ++ qs) ↔ IsUncut sep stack ps ∧ IsUncut sep (stackAfter stack ps) qs := by
  induction ps generalizing stack with
  | nil => simp [IsUncut, stackAfter]
  | cons p ps ih => rw [List.cons_append, IsUncut, IsUncut, ih, and_assoc]; rfl

/-- A row without a separator at its top level stays together. -/
theorem cutRow_append {sep : CodePoint} {stack : Text} {front : List Piece}
    (h : IsUncut sep stack front) (qs : List Piece) :
    cutRow sep stack (front ++ qs) = joinFirst front (cutRow sep (stackAfter stack front) qs) := by
  induction front generalizing stack with
  | nil =>
      show cutRow sep stack qs = joinFirst [] (cutRow sep stack qs)
      cases hrows : cutRow sep stack qs with
      | nil => exact absurd hrows (cutRow_ne_nil sep stack qs)
      | cons row rows => rfl
  | cons p front ih =>
      rw [List.cons_append, cutRow, if_neg h.1, ih h.2, joinFirst_joinFirst]
      rfl

theorem cutRow_of_isUncut {sep : CodePoint} {stack : Text} {ps : List Piece}
    (h : IsUncut sep stack ps) : cutRow sep stack ps = [ps] := by
  have := cutRow_append h []
  simpa [cutRow, joinFirst] using this

/-- A row is cut at a separator behind a part that closes what it opens. -/
theorem cutRow_append_separator {sep : CodePoint} {stack : Text} {front : List Piece}
    (h : IsUncut sep stack front) (hstack : stackAfter stack front = []) (qs : List Piece) :
    cutRow sep stack (front ++ .char sep :: qs) = front :: cutRow sep [] qs := by
  rw [cutRow_append h, hstack, cutRow, if_pos ⟨rfl, rfl⟩, joinFirst, List.append_nil]

/-- Whether rows are what a row is cut into: none has a separator at its top level, and all but
the last close what they open. -/
inductive AreParts (sep : CodePoint) : Text → List (List Piece) → Prop
  | last {stack : Text} {row : List Piece} (h : IsUncut sep stack row) : AreParts sep stack [row]
  | cons {stack : Text} {row : List Piece} {rows : List (List Piece)} (h : IsUncut sep stack row)
      (hstack : stackAfter stack row = []) (hrows : AreParts sep [] rows) :
      AreParts sep stack (row :: rows)

theorem areParts_cutRow (sep : CodePoint) (stack : Text) (ps : List Piece) :
    AreParts sep stack (cutRow sep stack ps) := by
  induction ps generalizing stack with
  | nil => exact .last trivial
  | cons p ps ih =>
      rw [cutRow]
      by_cases htop : p = .char sep ∧ stack = []
      · rw [if_pos htop]
        obtain ⟨-, rfl⟩ := htop
        exact .cons trivial rfl (ih [])
      · rw [if_neg htop]
        have hrec := ih (stackStep stack p)
        generalize cutRow sep (stackStep stack p) ps = rows at hrec ⊢
        cases hrec with
        | last h => exact .last ⟨htop, h⟩
        | cons h hstack hrows => exact .cons ⟨htop, h⟩ hstack hrows

/-- What a row is cut into are slices of it. -/
theorem infix_of_mem_cutRow {sep : CodePoint} {stack : Text} {ps row : List Piece}
    (h : row ∈ cutRow sep stack ps) : row <:+: ps := by
  -- the first row stands at the front, which is what the induction needs
  have key : ∀ (ps : List Piece) (stack : Text), ∃ first rows,
      cutRow sep stack ps = first :: rows ∧ first <+: ps ∧ ∀ r ∈ rows, r <:+: ps := by
    intro ps
    induction ps with
    | nil => exact fun stack => ⟨[], [], rfl, List.prefix_refl _, by simp⟩
    | cons p ps ih =>
        intro stack
        rw [cutRow]
        split
        · obtain ⟨first, rows, e, hfirst, hrows⟩ := ih stack
          refine ⟨[], first :: rows, by rw [e], List.nil_prefix, ?_⟩
          exact List.forall_mem_cons.2 ⟨List.infix_cons hfirst.isInfix,
            fun r hr => List.infix_cons (hrows r hr)⟩
        · obtain ⟨first, rows, e, hfirst, hrows⟩ := ih (stackStep stack p)
          refine ⟨p :: first, rows, by rw [e]; rfl, ?_, fun r hr => List.infix_cons (hrows r hr)⟩
          exact (List.prefix_cons_inj p).2 hfirst
  obtain ⟨first, rows, e, hfirst, hrows⟩ := key ps stack
  rw [e] at h
  rcases List.mem_cons.1 h with rfl | h
  exacts [hfirst.isInfix, hrows row h]

/-! ## Blank pieces -/

/-- Whether a piece is a blank character. -/
def Piece.isBlank : Piece → Bool
  | .char c => Text.isBlank c
  | _ => false

/-- Whether a row holds blanks only. -/
def IsBlankRow (ps : List Piece) : Prop := ∀ p ∈ ps, p.isBlank = true

instance (ps : List Piece) : Decidable (IsBlankRow ps) :=
  inferInstanceAs (Decidable (∀ p ∈ ps, p.isBlank = true))

theorem Piece.exists_of_isBlank {p : Piece} (h : p.isBlank = true) :
    ∃ c, p = .char c ∧ Text.isBlank c = true := by
  cases p with
  | char c => exact ⟨c, rfl, h⟩
  | _ => cases h

theorem of_closerOf? {c closer : CodePoint} (h : closerOf? c = some closer) :
    isBlank c = false ∧ (closer = ')' ∨ closer = ']') := by
  unfold closerOf? at h
  split at h
  · exact ⟨rfl, Or.inl (Option.some.inj h).symm⟩
  · exact ⟨rfl, Or.inr (Option.some.inj h).symm⟩
  · cases h

theorem stackStep_of_isBlank {p : Piece} (h : p.isBlank = true) (stack : Text)
    (hstack : ∀ c ∈ stack, Text.isBlank c = false) : stackStep stack p = stack := by
  obtain ⟨c, rfl, hc⟩ := Piece.exists_of_isBlank h
  have hcloser : closerOf? c = none := by
    cases hcloser : closerOf? c with
    | none => rfl
    | some closer =>
        rw [(of_closerOf? hcloser).1] at hc
        cases hc
  have hhead : stack.head? ≠ some c := fun e => by
    rw [hstack c (List.mem_of_head? e)] at hc
    cases hc
  rw [stackStep, hcloser]
  exact if_neg hhead

/-- The marks on a stack close something. -/
def IsStack (stack : Text) : Prop := ∀ c ∈ stack, c = ')' ∨ c = ']'

theorem IsStack.not_isBlank {stack : Text} (h : IsStack stack) :
    ∀ c ∈ stack, Text.isBlank c = false := by
  intro c hc
  rcases h c hc with rfl | rfl <;> rfl

theorem isStack_nil : IsStack [] := by simp [IsStack]

theorem IsStack.step {stack : Text} (h : IsStack stack) (p : Piece) :
    IsStack (stackStep stack p) := by
  cases p with
  | char c =>
      rw [stackStep]
      split
      · rename_i closer hcloser
        exact List.forall_mem_cons.2 ⟨(of_closerOf? hcloser).2, h⟩
      · split
        · exact fun d hd => h d (List.mem_of_mem_drop hd)
        · exact h
  | quoted s => exact h
  | comment s => exact h
  | openString s => exact h
  | openComment s => exact h

theorem IsStack.after {stack : Text} (h : IsStack stack) (ps : List Piece) :
    IsStack (stackAfter stack ps) := by
  induction ps generalizing stack with
  | nil => exact h
  | cons p ps ih => exact ih (h.step p)

theorem stackAfter_of_isBlankRow {ps : List Piece} (h : IsBlankRow ps) {stack : Text}
    (hstack : IsStack stack) : stackAfter stack ps = stack := by
  induction ps with
  | nil => rfl
  | cons p ps ih =>
      obtain ⟨hp, hps⟩ := List.forall_mem_cons.1 h
      show stackAfter (stackStep stack p) ps = stack
      rw [stackStep_of_isBlank hp stack hstack.not_isBlank, ih hps]

theorem isUncut_of_isBlankRow {sep : CodePoint} (hsep : IsSeparator sep) {ps : List Piece}
    (h : IsBlankRow ps) {stack : Text} (hstack : IsStack stack) : IsUncut sep stack ps := by
  induction ps with
  | nil => trivial
  | cons p ps ih =>
      obtain ⟨hp, hps⟩ := List.forall_mem_cons.1 h
      refine ⟨?_, ?_⟩
      · rintro ⟨rfl, -⟩
        rw [Piece.isBlank, hsep.blank] at hp
        cases hp
      · rw [stackStep_of_isBlank hp stack hstack.not_isBlank]
        exact ih hps

/-- Blanks at the ends of a row mean nothing to the marks that are open. -/
theorem stackAfter_pad {a b : List Piece} (ha : IsBlankRow a) (hb : IsBlankRow b) {stack : Text}
    (hstack : IsStack stack) (row : List Piece) :
    stackAfter stack (a ++ row ++ b) = stackAfter stack row := by
  rw [stackAfter_append, stackAfter_append, stackAfter_of_isBlankRow ha hstack,
    stackAfter_of_isBlankRow hb (hstack.after row)]

theorem isUncut_pad {sep : CodePoint} (hsep : IsSeparator sep) {a b : List Piece}
    (ha : IsBlankRow a)
    (hb : IsBlankRow b) {stack : Text} (hstack : IsStack stack) {row : List Piece} :
    IsUncut sep stack (a ++ row ++ b) ↔ IsUncut sep stack row := by
  rw [isUncut_append, isUncut_append, stackAfter_append, stackAfter_of_isBlankRow ha hstack]
  constructor
  · exact fun h => h.1.2
  · exact fun h => ⟨⟨isUncut_of_isBlankRow hsep ha hstack, h⟩,
      isUncut_of_isBlankRow hsep hb (hstack.after row)⟩

/-! ## Trimming a row -/

/-- A row without the blanks at both its ends. -/
def trimRow (ps : List Piece) : List Piece :=
  ((ps.dropWhile Piece.isBlank).reverse.dropWhile Piece.isBlank).reverse

/-- Whether a row has no blank at either end. -/
def IsTrimmed (ps : List Piece) : Prop :=
  (∀ p ∈ ps.head?, p.isBlank = false) ∧ ∀ p ∈ ps.getLast?, p.isBlank = false

theorem dropWhile_of_head? {ps : List Piece} (h : ∀ p ∈ ps.head?, p.isBlank = false) :
    ps.dropWhile Piece.isBlank = ps := by
  cases ps with
  | nil => rfl
  | cons p ps => rw [List.dropWhile_cons_of_neg (by simp [h p (by simp)])]

theorem dropWhile_of_isBlankRow {a : List Piece} (ha : IsBlankRow a) (ps : List Piece) :
    (a ++ ps).dropWhile Piece.isBlank = ps.dropWhile Piece.isBlank :=
  List.dropWhile_append_of_pos ha

/-- Blanks around a row that is not empty are trimmed away. -/
theorem trimRow_pad {a b row : List Piece} (ha : IsBlankRow a) (hb : IsBlankRow b)
    (hrow : IsTrimmed row) (hne : row ≠ []) : trimRow (a ++ row ++ b) = row := by
  have hhead : ∀ p ∈ (row ++ b).head?, p.isBlank = false := by
    cases row with
    | nil => exact absurd rfl hne
    | cons p row => simpa using hrow.1
  have hlast : ∀ p ∈ row.reverse.head?, p.isBlank = false := by
    rw [List.head?_reverse]
    exact hrow.2
  have hb' : IsBlankRow b.reverse := fun p hp => hb p (List.mem_reverse.1 hp)
  rw [trimRow, List.append_assoc, dropWhile_of_isBlankRow ha, dropWhile_of_head? hhead,
    List.reverse_append, dropWhile_of_isBlankRow hb', dropWhile_of_head? hlast,
    List.reverse_reverse]

theorem trimRow_of_isBlankRow {ps : List Piece} (h : IsBlankRow ps) : trimRow ps = [] := by
  have := dropWhile_of_isBlankRow h []
  rw [List.append_nil] at this
  rw [trimRow, this]
  rfl

theorem isTrimmed_trimRow (ps : List Piece) : IsTrimmed (trimRow ps) := by
  have hhead : ∀ qs : List Piece, ∀ p ∈ (qs.dropWhile Piece.isBlank).head?, p.isBlank = false := by
    intro qs p hp
    have hnot := List.head?_dropWhile_not Piece.isBlank qs
    rw [Option.mem_def.1 hp] at hnot
    simpa using hnot
  rw [trimRow]
  generalize hqs : ps.dropWhile Piece.isBlank = qs
  have hqs' : ∀ p ∈ qs.head?, p.isBlank = false := hqs ▸ hhead ps
  refine ⟨fun p hp => ?_, fun p hp => hhead qs.reverse p (by rwa [← List.getLast?_reverse])⟩
  -- what is left after trimming the end stands at the front of the row
  obtain ⟨t, ht⟩ := List.dropWhile_suffix (l := qs.reverse) Piece.isBlank
  have hprefix : (qs.reverse.dropWhile Piece.isBlank).reverse ++ t.reverse = qs := by
    rw [← List.reverse_append, ht, List.reverse_reverse]
  refine hqs' p ?_
  rw [← hprefix, List.head?_append, Option.mem_def.1 hp]
  rfl

/-- A row is what is left of it by trimming, with blanks around. -/
theorem exists_pad (ps : List Piece) :
    ∃ a b, IsBlankRow a ∧ IsBlankRow b ∧ ps = a ++ trimRow ps ++ b := by
  refine ⟨ps.takeWhile Piece.isBlank,
    ((ps.dropWhile Piece.isBlank).reverse.takeWhile Piece.isBlank).reverse,
    fun p hp => List.mem_takeWhile_imp hp,
    fun p hp => List.mem_takeWhile_imp (List.mem_reverse.1 hp), ?_⟩
  rw [trimRow, List.append_assoc, ← List.reverse_append, List.takeWhile_append_dropWhile,
    List.reverse_reverse, List.takeWhile_append_dropWhile]

theorem infix_trimRow (ps : List Piece) : trimRow ps <:+: ps := by
  obtain ⟨a, b, -, -, e⟩ := exists_pad ps
  exact ⟨a, b, e.symm⟩

/-- A piece that is whole and no blank has no blank at either end. -/
theorem Piece.IsWhole.not_isBlank_source {p : Piece} (hp : p.IsWhole) (hblank : p.isBlank = false) :
    (∀ c ∈ p.source.head?, Text.isBlank c = false) ∧
      ∀ c ∈ p.source.getLast?, Text.isBlank c = false := by
  have hquote : ∀ q : CodePoint, q = '"' ∨ q = '\'' → Text.isBlank q = false := by
    rintro q (rfl | rfl) <;> rfl
  cases hp with
  | @char c =>
      have hc : Text.isBlank c = false := hblank
      exact ⟨by simpa [Piece.source] using hc, by simpa [Piece.source] using hc⟩
  | @quoted quote tail hq htail =>
      have hlast : tail.getLast? = some quote := by
        clear hblank
        induction htail with
        | close => rfl
        | escaped c hs ih => rw [List.getLast?_cons, List.getLast?_cons, ih]; rfl
        | char _ _ hs ih => rw [List.getLast?_cons, ih]; rfl
      simp only [Piece.source, List.head?_cons, List.getLast?_cons, hlast, Option.mem_def]
      refine ⟨?_, ?_⟩
      · rintro c ⟨⟩
        exact hquote _ hq
      · rintro c ⟨⟩
        exact hquote _ hq
  | @comment inside =>
      have hsource :
          (Piece.comment
            ([CodePoint.char '/', .char '*'] ++ inside ++ [CodePoint.char '*', .char '/'])).source
          = .char '/' :: .char '*' :: (inside ++ [CodePoint.char '*']) ++ [CodePoint.char '/'] := by
        simp [Piece.source]
      rw [hsource]
      refine ⟨?_, ?_⟩
      · rintro c ⟨⟩
        rfl
      · rw [List.getLast?_append]
        rintro c ⟨⟩
        rfl

/-- A row that is trimmed has a source that is trimmed. -/
theorem sourceOf_dropWhile {ps : List Piece} (h : ∀ p ∈ ps, p.IsWhole) :
    sourceOf (ps.dropWhile Piece.isBlank) = (sourceOf ps).dropWhile Text.isBlank := by
  induction ps with
  | nil => rfl
  | cons p ps ih =>
      obtain ⟨hp, hps⟩ := List.forall_mem_cons.1 h
      by_cases hblank : p.isBlank = true
      · obtain ⟨c, rfl, hc⟩ := Piece.exists_of_isBlank hblank
        rw [List.dropWhile_cons_of_pos hblank, ih hps, sourceOf_cons]
        exact (List.dropWhile_cons_of_pos hc).symm
      · obtain ⟨c, s, hsource, -⟩ := hp.exists_source
        have hc := (hp.not_isBlank_source (by simpa using hblank)).1 c (by simp [hsource])
        rw [List.dropWhile_cons_of_neg hblank, sourceOf_cons, hsource, List.cons_append,
          List.dropWhile_cons_of_neg (by simp [hc])]

theorem sourceOf_dropEndWhile {ps : List Piece} (h : ∀ p ∈ ps, p.IsWhole) :
    sourceOf (ps.reverse.dropWhile Piece.isBlank).reverse
      = dropEndWhile Text.isBlank (sourceOf ps) := by
  induction ps using List.reverseRecOn with
  | nil => rfl
  | append_singleton ps p ih =>
      obtain ⟨hps, hp⟩ := List.forall_mem_append.1 h
      have hp : p.IsWhole := hp p (by simp)
      have hsource : sourceOf (ps ++ [p]) = sourceOf ps ++ p.source := by
        rw [sourceOf_append]
        simp [sourceOf]
      rw [List.reverse_append, List.reverse_singleton, List.singleton_append, hsource]
      by_cases hblank : p.isBlank = true
      · rw [List.dropWhile_cons_of_pos hblank, ih hps]
        obtain ⟨c, rfl, hc⟩ := Piece.exists_of_isBlank hblank
        rw [dropEndWhile, dropEndWhile, Piece.source, List.reverse_append,
          List.reverse_singleton, List.singleton_append, List.dropWhile_cons_of_pos hc]
      · obtain ⟨s, c, hlast⟩ : ∃ s c, p.source = s ++ [c] := by
          obtain ⟨c, s, hsource, -⟩ := hp.exists_source
          rw [hsource]
          exact ⟨_, _, (List.dropLast_concat_getLast (List.cons_ne_nil c s)).symm⟩
        have hc := (hp.not_isBlank_source (by simpa using hblank)).2 c (by simp [hlast])
        rw [List.dropWhile_cons_of_neg hblank, List.reverse_cons, List.reverse_reverse,
          dropEndWhile, hlast, ← List.append_assoc, List.reverse_append, List.reverse_singleton,
          List.singleton_append, List.dropWhile_cons_of_neg (by simp [hc]), List.reverse_cons,
          List.reverse_reverse, List.append_assoc, ← hlast, hsource]

/-- Trimming a row trims its source. -/
theorem sourceOf_trimRow {ps : List Piece} (h : ∀ p ∈ ps, p.IsWhole) :
    sourceOf (trimRow ps) = trim (sourceOf ps) := by
  have hdrop : ∀ p ∈ ps.dropWhile Piece.isBlank, p.IsWhole :=
    fun p hp => h p ((List.dropWhile_suffix _).subset hp)
  rw [trimRow, sourceOf_dropEndWhile hdrop, sourceOf_dropWhile h]
  rfl

theorem sourceOf_eq_nil_iff {ps : List Piece} (h : ∀ p ∈ ps, p.IsWhole) :
    sourceOf ps = [] ↔ ps = [] := by
  constructor
  · intro e
    cases ps with
    | nil => rfl
    | cons p ps =>
        obtain ⟨c, s, hsource, -⟩ := (h p (by simp)).exists_source
        rw [sourceOf_cons, hsource] at e
        cases e
  · rintro rfl
    rfl

/-! ## The parts of a row -/

/-- The parts of rows, trimmed, without those that are empty. -/
def trimRows (rows : List (List Piece)) : List (List Piece) :=
  (rows.map trimRow).filter fun row => !row.isEmpty

theorem exists_of_mem_trimRows {rows : List (List Piece)} {row : List Piece}
    (h : row ∈ trimRows rows) : ∃ whole ∈ rows, row = trimRow whole ∧ row ≠ [] := by
  obtain ⟨hmem, hne⟩ := List.mem_filter.1 h
  obtain ⟨whole, hwhole, rfl⟩ := List.mem_map.1 hmem
  exact ⟨whole, hwhole, rfl, by simpa using hne⟩

/-- Parts stay parts when they are trimmed and the empty ones are dropped. -/
theorem AreParts.trim {sep : CodePoint} (hsep : IsSeparator sep) {stack : Text}
    (hstack : IsStack stack)
    {rows : List (List Piece)} (h : AreParts sep stack rows) (hne : trimRows rows ≠ []) :
    AreParts sep stack (trimRows rows) := by
  have htrim : ∀ {stack : Text} (row : List Piece), IsStack stack → IsUncut sep stack row →
      IsUncut sep stack (trimRow row) ∧ stackAfter stack (trimRow row) = stackAfter stack row := by
    intro stack row hstack hrow
    obtain ⟨a, b, ha, hb, e⟩ := exists_pad row
    refine ⟨(isUncut_pad hsep ha hb hstack).1 (e ▸ hrow), ?_⟩
    conv_rhs => rw [e]
    exact (stackAfter_pad ha hb hstack _).symm
  induction h with
  | @last stack row hrow =>
      have hrows : trimRows [row] = [trimRow row] := by
        by_contra hcon
        apply hne
        simp_all [trimRows, List.filter_cons]
      rw [hrows]
      exact .last (htrim row hstack hrow).1
  | @cons stack row rows hrow hafter hrows ih =>
      obtain ⟨huncut, hstackAfter⟩ := htrim row hstack hrow
      by_cases hempty : trimRow row = []
      · -- a blank part opens and closes nothing, so nothing was open in front of it
        have hrest : trimRows (row :: rows) = trimRows rows := by simp [trimRows, hempty]
        have hnil : stack = [] := by
          rw [hempty, hafter] at hstackAfter
          exact hstackAfter
        rw [hrest] at hne ⊢
        exact hnil ▸ ih isStack_nil hne
      · have hrest : trimRows (row :: rows) = trimRow row :: trimRows rows := by
          simp [trimRows, hempty]
        rw [hrest]
        by_cases hnil : trimRows rows = []
        · rw [hnil]
          exact .last huncut
        · exact .cons huncut (hstackAfter.trans hafter) (ih isStack_nil hnil)

theorem filter_map_trim {rows : List (List Piece)} (h : ∀ row ∈ rows, ∀ p ∈ row, p.IsWhole) :
    ((rows.map sourceOf).map Text.trim).filter (!·.isEmpty) = (trimRows rows).map sourceOf := by
  induction rows with
  | nil => rfl
  | cons row rows ih =>
      obtain ⟨hrow, hrows⟩ := List.forall_mem_cons.1 h
      have hsource := sourceOf_trimRow hrow
      have hnil : sourceOf (trimRow row) = [] ↔ trimRow row = [] :=
        sourceOf_eq_nil_iff fun p hp => hrow p ((infix_trimRow row).subset hp)
      have ih := ih hrows
      rw [List.map_cons, List.map_cons]
      by_cases hempty : trimRow row = []
      · have hkeep : trimRows (row :: rows) = trimRows rows := by simp [trimRows, hempty]
        have htrim : Text.trim (sourceOf row) = [] := by rw [← hsource, hnil.2 hempty]
        rw [hkeep, ← ih, List.filter_cons_of_neg (by simp [htrim])]
      · have hkeep : trimRows (row :: rows) = trimRow row :: trimRows rows := by
          simp [trimRows, hempty]
        have htrim : Text.trim (sourceOf row) ≠ [] := by
          rw [← hsource]
          exact fun e => hempty (hnil.1 e)
        rw [hkeep, List.map_cons, ← ih, hsource, List.filter_cons_of_pos (by simpa using htrim)]

/-- The top-level parts of a row that is written are the sources of what it is cut into, trimmed
and without the empty ones. -/
theorem topLevelParts_sourceOf {sep : CodePoint} (hsep : IsSeparator sep) {ps : List Piece}
    (h : Written ps) :
    topLevelParts sep (sourceOf ps) = .ok ((trimRows (cutRow sep [] ps)).map sourceOf) := by
  have hwhole : ∀ row ∈ cutRow sep [] ps, ∀ p ∈ row, p.IsWhole := fun row hrow p hp =>
    h.isWhole p ((infix_of_mem_cutRow hrow).subset hp)
  rw [topLevelParts, pieces_sourceOf h, partsFrom_eq hsep h.isClosed, ← filter_map_trim hwhole]
  rfl

/-- A row that a row is cut into, trimmed, as a part of the text. -/
structure IsPart (ps row : List Piece) : Prop where
  slice : row <:+: ps
  written : Written row
  trimmed : IsTrimmed row
  ne_nil : row ≠ []

/-- The top-level parts of a text, as rows of its pieces. -/
theorem exists_rows_of_topLevelParts {sep : CodePoint} (hsep : IsSeparator sep) {ps : List Piece}
    (hps : Written ps) {parts : List Text} (h : topLevelParts sep (sourceOf ps) = .ok parts) :
    ∃ rows, parts = rows.map sourceOf ∧ (∀ row ∈ rows, IsPart ps row) ∧
      (rows ≠ [] → AreParts sep [] rows) := by
  rw [topLevelParts_sourceOf hsep hps] at h
  refine ⟨trimRows (cutRow sep [] ps), (Except.ok.inj h).symm, fun row hrow => ?_,
    (areParts_cutRow sep [] ps).trim hsep isStack_nil⟩
  obtain ⟨whole, hwhole, rfl, hne⟩ := exists_of_mem_trimRows hrow
  have hslice : trimRow whole <:+: ps := (infix_trimRow whole).trans (infix_of_mem_cutRow hwhole)
  exact ⟨hslice, hps.of_infix hslice, isTrimmed_trimRow whole, hne⟩

end Stencil.Css
