import Stencil.Proofs.Css.Split

set_option autoImplicit false

/-! # Splitting texts put together

Splitting at the top level goes piece by piece, with the open marks as its only memory: so where
a text closes what it opens, a separator behind it starts the splitting afresh. The parts of two
texts with a separator between them are the parts of the one and then those of the other
(`topLevelParts_append_cons`), and a fault of the second is found that much later.
-/

namespace Stencil.Css

open Text

/-! ## Faults found later -/

/-- A fault of a text, when the text stands behind `k` characters. -/
def Fault.shift (k : Nat) : Fault → Fault
  | .unclosedString index => .unclosedString (k + index)
  | .unclosedComment index => .unclosedComment (k + index)
  | .strayBrace index => .strayBrace (k + index)
  | .unclosedBlock index => .unclosedBlock (k + index)
  | .unclosedAtRule index => .unclosedAtRule (k + index)
  | .missingBlock source => .missingBlock source
  | .missingSelector index => .missingSelector (k + index)

theorem map_mapError {ε ε' α β : Type} (f : α → β) (g : ε → ε') (x : Except ε α) :
    (x.mapError g).map f = (x.map f).mapError g := by
  cases x <;> rfl

theorem map_map {ε α β γ : Type} (f : α → β) (g : β → γ) (x : Except ε α) :
    (x.map f).map g = x.map (g ∘ f) := by
  cases x <;> rfl

/-! ## One piece of a row -/

/-- What a piece does to the parts behind it: a separator at the top level begins a new part, and
any other piece goes to the first one. -/
def consPart (sep : CodePoint) (stack : Text) (p : Piece) (parts : List Text) : List Text :=
  if p = .char sep ∧ stack = [] then [] :: parts else extendFirst p.source parts

/-- A step of the splitting, at a piece that is not left open. -/
theorem partsFrom_cons {sep : CodePoint} (hsep : IsSeparator sep) {p : Piece}
    (hp : p.isClosed = true)
    (stack : Text) (index : Nat) (ps : List Piece) :
    partsFrom sep stack index (p :: ps)
      = (partsFrom sep (stackStep stack p) (index + p.size) ps).map (consPart sep stack p) := by
  have hextend : ¬ (p = .char sep ∧ stack = []) → consPart sep stack p = extendFirst p.source :=
    fun h => funext fun parts => if_neg h
  cases p with
  | char c =>
      rw [partsFrom, stackStep]
      cases hcloser : closerOf? c with
      | some closer =>
          rw [hextend]
          · rfl
          · rintro ⟨e, -⟩
            rw [Piece.char.inj e, hsep.opens] at hcloser
            cases hcloser
      | none =>
          by_cases hhead : stack.head? = some c
          · rw [hextend]
            · simp only [if_pos hhead]
              rfl
            · rintro ⟨-, rfl⟩
              cases hhead
          · simp only [if_neg hhead]
            by_cases htop : c = sep ∧ stack = []
            · obtain ⟨rfl, rfl⟩ := htop
              have hnew : consPart c [] (.char c) = ([] :: ·) :=
                funext fun parts => if_pos ⟨rfl, rfl⟩
              rw [hnew, if_pos (by simp)]
              rfl
            · rw [if_neg (by simpa using htop), hextend (by simpa using htop)]
              rfl
  | quoted s => rw [hextend (by simp)]; rfl
  | comment s => rw [hextend (by simp)]; rfl
  | openString s => cases hp
  | openComment s => cases hp

/-- The index at which pieces begin only tells where their faults are. -/
theorem partsFrom_shift {sep : CodePoint} (hsep : IsSeparator sep) (stack : Text) (k index : Nat)
    (ps : List Piece) :
    partsFrom sep stack (k + index) ps
      = (partsFrom sep stack index ps).mapError (Fault.shift k) := by
  induction ps generalizing stack index with
  | nil => rfl
  | cons p ps ih =>
      by_cases hp : p.isClosed = true
      · rw [partsFrom_cons hsep hp, partsFrom_cons hsep hp, Nat.add_assoc, ih, map_mapError]
      · cases p with
        | openString s => rfl
        | openComment s => rfl
        | _ => exact absurd rfl hp

/-! ## Rows put together -/

theorem consPart_append (sep : CodePoint) (stack : Text) (p : Piece) {parts : List Text}
    (h : parts ≠ []) (more : List Text) :
    consPart sep stack p (parts ++ more) = consPart sep stack p parts ++ more := by
  cases parts with
  | nil => exact absurd rfl h
  | cons part parts =>
      rw [consPart, consPart]
      split <;> rfl

/-- The sources of the rows that a row is cut into, piece by piece. -/
theorem map_sourceOf_cutRow_cons (sep : CodePoint) (stack : Text) (p : Piece) (ps : List Piece)
    (htop : p = .char sep ∧ stack = [] → stackStep stack p = stack) :
    (cutRow sep stack (p :: ps)).map sourceOf
      = consPart sep stack p ((cutRow sep (stackStep stack p) ps).map sourceOf) := by
  rw [cutRow, consPart]
  split
  · rename_i h
    rw [htop h]
    rfl
  · exact map_sourceOf_joinFirst p (cutRow_ne_nil _ _ _)

theorem IsSeparator.stackStep_nil {sep : CodePoint} (hsep : IsSeparator sep) :
    stackStep [] (.char sep) = [] := by
  rw [stackStep, hsep.opens]
  rfl

/-- A separator behind a row that closes what it opens starts the splitting afresh. -/
theorem partsFrom_append_cons {sep : CodePoint} (hsep : IsSeparator sep) {ps : List Piece}
    (hclosed : ∀ p ∈ ps, p.isClosed = true) {stack : Text} (hstack : stackAfter stack ps = [])
    (index : Nat) (qs : List Piece) :
    partsFrom sep stack index (ps ++ .char sep :: qs)
      = (partsFrom sep [] (index + (sourceOf ps).length + 1) qs).map
          ((cutRow sep stack ps).map sourceOf ++ ·) := by
  induction ps generalizing stack index with
  | nil =>
      obtain rfl : stack = [] := hstack
      rw [List.nil_append, partsFrom_cons hsep rfl, hsep.stackStep_nil]
      exact congrArg (Except.map · _) (funext fun parts => if_pos ⟨rfl, rfl⟩)
  | cons p ps ih =>
      obtain ⟨hp, hps⟩ := List.forall_mem_cons.1 hclosed
      have hrows : (cutRow sep (stackStep stack p) ps).map sourceOf ≠ [] := by
        simpa using cutRow_ne_nil sep (stackStep stack p) ps
      have hindex : index + p.size + (sourceOf ps).length
          = index + (sourceOf (p :: ps)).length := by
        rw [sourceOf_cons, List.length_append, Piece.size, Nat.add_assoc]
      rw [List.cons_append, partsFrom_cons hsep hp, ih hps hstack, map_map, hindex,
        map_sourceOf_cutRow_cons]
      · exact congrArg (Except.map · _)
          (funext fun parts => consPart_append sep stack p hrows parts)
      · rintro ⟨rfl, rfl⟩
        exact hsep.stackStep_nil

/-- A text in which nothing is left open is cut into pieces on its own when a character follows
that neither opens a string nor makes up a mark of a comment. -/
theorem pieces_append_cons {a : Text} (hclosed : ∀ p ∈ pieces a, p.isClosed = true) {c : CodePoint}
    (hdouble : c ≠ '"') (hsingle : c ≠ '\'') (hslash : c ≠ '/') (hstar : c ≠ '*') (b : Text) :
    pieces (a ++ c :: b) = pieces a ++ .char c :: pieces b := by
  have hfirst : firstPiece c b = .char c := by
    simp [firstPiece, hdouble, hsingle, hslash]
  obtain ⟨r, e, hpieces⟩ := pieces_cons c b
  rw [hfirst] at e hpieces
  obtain rfl : b = r := (List.cons.inj e).2
  have key := pieces_sourceOf_append (written_pieces hclosed) (r := c :: b) (by simp [hstar])
  rwa [sourceOf_pieces, hpieces] at key

/-! ## Texts put together -/

theorem map_trim_append (parts more : List Text) :
    ((parts ++ more).map trim).filter (!·.isEmpty)
      = (parts.map trim).filter (!·.isEmpty) ++ (more.map trim).filter (!·.isEmpty) := by
  rw [List.map_append, List.filter_append]

/-- Behind a text that leaves no string, no comment and no bracket open, a separator parts what
stands before it from what stands after it: the whole has the parts of the one and then those of
the other, or the fault of the other, found that much later. -/
theorem topLevelParts_append_cons {sep : CodePoint} (hsep : sep = ',' ∨ sep = ';') {a : Text}
    (hclosed : ∀ p ∈ pieces a, p.isClosed = true) (hbrackets : ClosesBrackets a) (b : Text) :
    ∃ front, topLevelParts sep a = .ok front ∧
      topLevelParts sep (a ++ sep :: b)
        = ((topLevelParts sep b).map (front ++ ·)).mapError (Fault.shift (a.length + 1)) := by
  have hseparates : IsSeparator sep := by
    rcases hsep with rfl | rfl
    exacts [isSeparator_comma, isSeparator_semicolon]
  have hpieces : pieces (a ++ sep :: b) = pieces a ++ .char sep :: pieces b := by
    rcases hsep with rfl | rfl <;> exact pieces_append_cons hclosed (by decide) (by decide)
      (by decide) (by decide) b
  have hwhole : partsFrom sep [] 0 (pieces (a ++ sep :: b))
      = ((partsFrom sep [] 0 (pieces b)).map ((cutRow sep [] (pieces a)).map sourceOf ++ ·)).mapError
          (Fault.shift (a.length + 1)) := by
    rw [hpieces, partsFrom_append_cons hseparates hclosed hbrackets, sourceOf_pieces, Nat.zero_add,
      ← map_mapError, ← partsFrom_shift hseparates, Nat.add_zero]
  refine ⟨_, by rw [topLevelParts, partsFrom_eq hseparates hclosed]; rfl, ?_⟩
  rw [topLevelParts, hwhole, map_mapError, map_map, topLevelParts, map_map]
  congr 2
  exact funext fun parts => map_trim_append _ parts

/-- A selector with marks in a string and in a comment, with brackets that do not match, and with a
mark that closes nothing. -/
def strayMarks : Text := "a:is([x=\")\"], b] /*(,*/) ]".text

theorem topLevelParts_append_cons_strayMarks :
    (∀ p ∈ pieces strayMarks, p.isClosed = true) ∧ ClosesBrackets strayMarks ∧
      topLevelParts ',' (strayMarks ++ .char ',' :: " c ,, d".text)
        = .ok [strayMarks, "c".text, "d".text] ∧
      topLevelParts ',' (strayMarks ++ .char ',' :: "c, 'd".text)
          = .error (.unclosedString 30) := by
  have hclosed : ∀ p ∈ pieces strayMarks, p.isClosed = true := by decide
  have hbrackets : ClosesBrackets strayMarks := by decide
  have hfront : topLevelParts ',' strayMarks = .ok [strayMarks] := by decide +kernel
  have hback : topLevelParts ',' " c ,, d".text = .ok ["c".text, "d".text] := by
    decide +kernel
  have hfault : topLevelParts ',' "c, 'd".text = .error (.unclosedString 3) := by decide +kernel
  obtain ⟨front, hparts, hall⟩ :=
    topLevelParts_append_cons (Or.inl rfl) hclosed hbrackets " c ,, d".text
  obtain ⟨front', hparts', hfails⟩ :=
    topLevelParts_append_cons (Or.inl rfl) hclosed hbrackets "c, 'd".text
  obtain rfl := Except.ok.inj (hfront.symm.trans hparts)
  refine ⟨hclosed, hbrackets, ?_, ?_⟩
  · rw [hall, hback]
    rfl
  · rw [hfails, hfault]
    rfl

end Stencil.Css
