import Stencil.Proofs.Css.Split

set_option autoImplicit false

/-! # The layout of a style sheet

The grammar of style sheets. A style sheet is a row of passages: blanks, comments, at-rules and
rules (`Passage`), each with conditions on what stands outside its strings and comments
(`Passage.WellFormed`) and with the item that it stands for, if any (`Passage.Yields`). Reading
accepts the texts that have a layout, and gives the items of the layout in order
(`parse_iff_isLayout`).

A reader and a passage are compared by what is left behind: a passage is read off the front of
any pieces that follow it, and whatever a reader takes off the front of a row is a passage,
provided that the row is written.
-/

namespace Stencil.Css

open Text

/-! ## Passages -/

/-- Whether the braces outside strings and comments belong together in pairs. -/
inductive Balanced : List Piece → Prop
  | nil : Balanced []
  | piece {p : Piece} {ps : List Piece} (hopen : p ≠ .char '\x7b') (hclose : p ≠ .char '\x7d')
      (hps : Balanced ps) : Balanced (p :: ps)
  | block {inside ps : List Piece} (hinside : Balanced inside) (hps : Balanced ps) :
      Balanced (.char '\x7b' :: inside ++ .char '\x7d' :: ps)

/-- Whether none of some characters stands in a row outside strings and comments. -/
def Avoids (chars : Text) (ps : List Piece) : Prop := ∀ c ∈ chars, .char c ∉ ps

theorem Avoids.mono {chars chars' : Text} {ps : List Piece} (h : Avoids chars ps)
    (hsub : chars' ⊆ chars) : Avoids chars' ps := fun c hc => h c (hsub hc)

/-- What an at-rule begins with, up to the semicolon or the block that ends it. -/
structure IsAtFront (front : List Piece) : Prop where
  written : Written front
  at_sign : front.head? = some (.char '@')
  avoids : Avoids ['\x7b', '\x7d', ';'] front

/-- An at sign at the front of some pieces is no stop, so it begins what stands before the stop. -/
theorem head?_eq_at_sign {front rest : List Piece} {stop : CodePoint} (hstop : stop ≠ '@')
    (hat : (front ++ .char stop :: rest).head? = some (.char '@')) :
    front.head? = some (.char '@') := by
  cases front with
  | nil => exact absurd (Piece.char.inj (Option.some.inj hat)) hstop
  | cons p front => exact hat

theorem IsAtFront.eq_at_sign {front rest ps : List Piece} {p : Piece} (h : IsAtFront front)
    (e : front ++ rest = p :: ps) : p = .char '@' := by
  have hat := h.at_sign
  cases front with
  | nil => cases hat
  | cons q front => rw [← (List.cons.inj e).1, ← Option.some.inj hat]

/-- What a rule begins with, up to its block: some text without braces at its top level that
begins as nothing else begins, with a part between commas that is not blank. -/
structure IsPrelude (prelude : List Piece) : Prop where
  written : Written prelude
  avoids : Avoids ['\x7b', '\x7d'] prelude
  not_blank : ∀ p ∈ prelude.head?, p.isBlank = false
  not_at : prelude.head? ≠ some (.char '@')
  not_comment : ∀ s, prelude.head? ≠ some (.comment s)
  has_part : topLevelParts ',' (sourceOf prelude) ≠ .ok []

/-- What stands between the braces of a block. -/
structure IsBody (body : List Piece) : Prop where
  written : Written body
  balanced : Balanced body

/-- A passage of a style sheet: a blank character, a comment, an at-rule that ends with a
semicolon or with a block, or a rule. -/
inductive Passage where
  | blank (c : CodePoint)
  | comment (inside : Text)
  | statement (front : List Piece)
  | atBlock (front body : List Piece)
  | rule (prelude body : List Piece)

namespace Passage

/-- The pieces of a passage. -/
def pieces : Passage → List Piece
  | blank c => [.char c]
  | comment inside => [.comment ([char '/', char '*'] ++ inside ++ [char '*', char '/'])]
  | statement front => front ++ [Piece.char ';']
  | atBlock front body => front ++ .char '\x7b' :: body ++ [Piece.char '\x7d']
  | rule prelude body => prelude ++ .char '\x7b' :: body ++ [Piece.char '\x7d']

/-- The source of a passage. -/
def source (passage : Passage) : Text := sourceOf passage.pieces

/-- Whether a passage is of the form it has by its name. -/
def WellFormed : Passage → Prop
  | blank c => isBlank c = true
  | comment inside => contains (inside ++ [char '*']) ['*', '/'] = false
  | statement front => IsAtFront front
  | atBlock front body => IsAtFront front ∧ IsBody body
  | rule prelude body => IsPrelude prelude ∧ IsBody body

/-- The item that a passage stands for; blanks stand for none. A rule whose block holds an
opening brace, be it in a string or a comment, is kept as it is written. -/
inductive Yields : Passage → Option Item → Prop
  | blank (c : CodePoint) : Yields (.blank c) none
  | comment (inside : Text) : Yields (.comment inside) (some (.raw (Passage.comment inside).source))
  | statement (front : List Piece) :
      Yields (.statement front) (some (.raw (Passage.statement front).source))
  | atBlock (front body : List Piece) :
      Yields (.atBlock front body) (some (.raw (Passage.atBlock front body).source))
  | nested {prelude body : List Piece} (hbrace : .char '\x7b' ∈ sourceOf body) :
      Yields (.rule prelude body) (some (.raw (Passage.rule prelude body).source))
  | rule {prelude body : List Piece} {selectors declarations : List Text}
      (hbrace : .char '\x7b' ∉ sourceOf body)
      (hselectors : topLevelParts ',' (sourceOf prelude) = .ok selectors)
      (hdeclarations : topLevelParts ';' (sourceOf body) = .ok declarations) :
      Yields (.rule prelude body) (some (.rule selectors declarations))

/-- A passage yields one item, or nothing. -/
theorem WellFormed.exists_yields {passage : Passage} (h : passage.WellFormed) :
    ∃ item?, passage.Yields item? := by
  cases passage with
  | blank c => exact ⟨_, .blank c⟩
  | comment inside => exact ⟨_, .comment inside⟩
  | statement front => exact ⟨_, .statement front⟩
  | atBlock front body => exact ⟨_, .atBlock front body⟩
  | rule prelude body =>
      obtain ⟨hprelude, hbody⟩ := h
      by_cases hbrace : .char '\x7b' ∈ sourceOf body
      · exact ⟨_, .nested hbrace⟩
      · exact ⟨_, .rule hbrace (topLevelParts_sourceOf isSeparator_comma hprelude.written)
          (topLevelParts_sourceOf isSeparator_semicolon hbody.written)⟩

end Passage

/-- Whether some passages are the layout of a text. -/
structure IsLayout (s : Text) (layout : List Passage) : Prop where
  wellFormed : ∀ passage ∈ layout, passage.WellFormed
  source : layout.flatMap Passage.source = s

/-! ## The pieces of a layout -/

theorem written_braces {front body : List Piece} (hfront : Written front) (hbody : Written body) :
    Written (front ++ .char '\x7b' :: body ++ [Piece.char '\x7d']) := by
  have hclose : Written [.char '\x7d'] := .cons (.char (by decide) (by decide)) (by simp) .nil
  have hblock : Written (.char '\x7b' :: (body ++ [Piece.char '\x7d'])) :=
    .cons (.char (by decide) (by decide)) (fun e => absurd e (by decide))
      (written_append_iff.2 ⟨hbody, hclose, fun _ => by decide⟩)
  rw [List.append_assoc]
  exact written_append_iff.2 ⟨hfront, hblock, fun _ => by simp⟩

theorem Passage.WellFormed.written {passage : Passage} (h : passage.WellFormed) :
    Written passage.pieces := by
  cases passage with
  | blank c =>
      refine .cons (.char ?_ ?_) (by simp) .nil
      · rintro rfl
        cases h
      · rintro rfl
        cases h
  | comment inside => exact .cons (.comment h) (by simp) .nil
  | statement front =>
      exact written_append_iff.2
        ⟨IsAtFront.written h, .cons (.char (by decide) (by decide)) (by simp) .nil,
          fun _ => by decide⟩
  | atBlock front body => exact written_braces h.1.written h.2.written
  | rule prelude body => exact written_braces h.1.written h.2.written

/-- No passage ends in a slash of its own. -/
theorem Passage.WellFormed.getLast?_ne {passage : Passage} (h : passage.WellFormed) :
    passage.pieces.getLast? ≠ some (.char '/') := by
  cases passage with
  | blank c =>
      rintro e
      obtain rfl : c = '/' := by simpa [pieces] using e
      cases h
  | comment inside => simp [pieces]
  | statement front => simp [pieces]
  | atBlock front body =>
      rw [pieces, List.getLast?_concat]
      decide
  | rule prelude body =>
      rw [pieces, List.getLast?_concat]
      decide

theorem IsLayout.written {s : Text} {layout : List Passage} (h : IsLayout s layout) :
    Written (layout.flatMap Passage.pieces) := by
  have key : ∀ layout : List Passage, (∀ passage ∈ layout, passage.WellFormed) →
      Written (layout.flatMap Passage.pieces) := by
    intro layout
    induction layout with
    | nil => exact fun _ => .nil
    | cons passage layout ih =>
        intro h
        obtain ⟨hpassage, hlayout⟩ := List.forall_mem_cons.1 h
        exact hpassage.written.append (ih hlayout) hpassage.getLast?_ne
  exact key layout h.wellFormed

theorem sourceOf_flatMap (layout : List Passage) :
    sourceOf (layout.flatMap Passage.pieces) = layout.flatMap Passage.source := by
  induction layout with
  | nil => rfl
  | cons passage layout ih =>
      rw [List.flatMap_cons, List.flatMap_cons, sourceOf_append, ih]
      rfl

theorem IsLayout.pieces_eq {s : Text} {layout : List Passage} (h : IsLayout s layout) :
    pieces s = layout.flatMap Passage.pieces := by
  rw [← h.source, ← sourceOf_flatMap, pieces_sourceOf h.written]

/-! ## Scanning -/

theorem scanTo_append {stops : Text} {front : List Piece} {stop : CodePoint}
    (hclosed : ∀ p ∈ front, p.isClosed = true) (havoids : Avoids ('\x7d' :: stops) front)
    (hstop : stop ∈ stops) (index : Nat) (rest : List Piece) :
    scanTo stops index (front ++ .char stop :: rest) = .ok (some (front, stop, rest)) := by
  induction front generalizing index with
  | nil => simp [scanTo, hstop]
  | cons p front ih =>
      obtain ⟨hp, hclosed⟩ := List.forall_mem_cons.1 hclosed
      have hrest := ih hclosed fun c hc hmem => havoids c hc (List.mem_cons_of_mem p hmem)
      rw [List.cons_append]
      cases p with
      | char c =>
          have hne : ∀ d ∈ .char '\x7d' :: stops, d ≠ c := fun d hd e => havoids d hd (by simp [e])
          have hstops : ¬ stops.elem c = true := fun h =>
            hne c (List.mem_cons_of_mem _ (List.elem_iff.1 h)) rfl
          rw [scanTo, if_neg hstops, if_neg (hne '\x7d' (by simp)).symm, hrest]
          rfl
      | quoted s =>
          rw [scanTo, hrest]
          · rfl
          all_goals simp
      | comment s =>
          rw [scanTo, hrest]
          · rfl
          all_goals simp
      | openString s => cases hp
      | openComment s => cases hp

/-- What a scan passes over is closed, and holds no stop and no closing brace. -/
theorem closed_of_scanTo {stops : Text} {index : Nat} {ps front rest : List Piece}
    {stop : CodePoint}
    (h : scanTo stops index ps = .ok (some (front, stop, rest))) :
    (∀ p ∈ front, p.isClosed = true) ∧ Avoids ('\x7d' :: stops) front := by
  induction ps generalizing index front with
  | nil => simp [scanTo] at h
  | cons p ps ih =>
      -- A piece that is passed over is no stop, and the scan goes on behind it.
      have hrec : ∀ index, (∀ c ∈ .char '\x7d' :: stops, Piece.char c ≠ p) → p.isClosed = true →
          (scanTo stops index ps).map (·.map fun x => (p :: x.1, x.2.1, x.2.2))
            = .ok (some (front, stop, rest)) →
          (∀ p ∈ front, p.isClosed = true) ∧ Avoids ('\x7d' :: stops) front := by
        intro index hne hp h
        obtain ⟨found, hfound, e⟩ := eq_of_map_ok h
        cases found with
        | none => simp at e
        | some found =>
            simp only [Option.map_some, Option.some.injEq, Prod.mk.injEq] at e
            obtain ⟨rfl, rfl, rfl⟩ := e
            obtain ⟨hclosed, havoids⟩ := ih hfound
            refine ⟨List.forall_mem_cons.2 ⟨hp, hclosed⟩, fun c hc hmem => ?_⟩
            rcases List.mem_cons.1 hmem with e | hmem
            exacts [hne c hc e, havoids c hc hmem]
      cases p with
      | char c =>
          rw [scanTo] at h
          split at h
          · simp only [Except.ok.injEq, Option.some.injEq, Prod.mk.injEq] at h
            obtain ⟨rfl, rfl, rfl⟩ := h
            exact ⟨by simp, by simp [Avoids]⟩
          · rename_i hc
            split at h
            · cases h
            · rename_i hbrace
              refine hrec _ (fun d hd e => ?_) rfl h
              obtain rfl := Piece.char.inj e
              rcases List.mem_cons.1 hd with rfl | hd
              exacts [hbrace rfl, hc (by simpa using hd)]
      | quoted s => exact hrec _ (by simp) rfl h
      | comment s => exact hrec _ (by simp) rfl h
      | openString s => cases h
      | openComment s => cases h

/-! ## Blocks -/

/-- Balanced pieces change nothing to how a block goes on behind them. -/
theorem blockFrom_append {ps : List Piece} (h : Balanced ps)
    (hclosed : ∀ p ∈ ps, p.isClosed = true) (first depth index : Nat) (qs : List Piece) :
    ∃ index', blockFrom first depth index (ps ++ qs)
      = (blockFrom first depth index' qs).map fun found => (ps ++ found.1, found.2) := by
  induction h generalizing depth index qs with
  | nil =>
      refine ⟨index, ?_⟩
      rw [List.nil_append]
      cases blockFrom first depth index qs <;> rfl
  | @piece p ps hopen hclose hps ih =>
      obtain ⟨hp, hclosed⟩ := List.forall_mem_cons.1 hclosed
      rw [List.cons_append]
      have hstep : ∃ index', blockFrom first depth index (p :: (ps ++ qs))
          = (blockFrom first depth index' (ps ++ qs)).map fun found => (p :: found.1, found.2) := by
        cases p with
        | char c =>
            have hne : c ≠ '\x7d' := fun e => hclose (by rw [e])
            have hne' : c ≠ '\x7b' := fun e => hopen (by rw [e])
            exact ⟨index + 1, by simp only [blockFrom, if_neg hne, if_neg hne']⟩
        | quoted s => exact ⟨index + (Piece.quoted s).size, by rw [blockFrom] <;> simp⟩
        | comment s => exact ⟨index + (Piece.comment s).size, by rw [blockFrom] <;> simp⟩
        | openString s => cases hp
        | openComment s => cases hp
      obtain ⟨index', e⟩ := hstep
      obtain ⟨index'', e'⟩ := ih hclosed depth index' qs
      exact ⟨index'', by rw [e, e']; cases blockFrom first depth index'' qs <;> rfl⟩
  | @block inside ps hinside hps ihinside ihps =>
      rw [List.cons_append, List.forall_mem_cons, List.forall_mem_append,
        List.forall_mem_cons] at hclosed
      obtain ⟨-, hclosedInside, -, hclosedPs⟩ := hclosed
      -- The inside is read one block deeper, and its closing brace leads back.
      obtain ⟨index₁, e₁⟩ :=
        ihinside hclosedInside (depth + 1) (index + 1) (.char '\x7d' :: (ps ++ qs))
      obtain ⟨index₂, e₂⟩ := ihps hclosedPs depth (index₁ + 1) qs
      refine ⟨index₂, ?_⟩
      have hopen : blockFrom first depth index
          (.char '\x7b' :: (inside ++ .char '\x7d' :: (ps ++ qs)))
          = (blockFrom first (depth + 1) (index + 1) (inside ++ .char '\x7d' :: (ps ++ qs))).map
              fun found => (.char '\x7b' :: found.1, found.2) := by
        simp only [blockFrom, if_neg (show ('\x7b' : CodePoint) ≠ '\x7d' by decide), if_pos]
      have hclose : blockFrom first (depth + 1) index₁ (.char '\x7d' :: (ps ++ qs))
          = (blockFrom first depth (index₁ + 1) (ps ++ qs)).map
              fun found => (.char '\x7d' :: found.1, found.2) := by
        simp only [blockFrom, if_pos]
      have hshape : .char '\x7b' :: inside ++ .char '\x7d' :: ps ++ qs
          = .char '\x7b' :: (inside ++ .char '\x7d' :: (ps ++ qs)) := by simp
      rw [hshape, hopen, e₁, hclose, e₂]
      cases blockFrom first depth index₂ qs with
      | error e => rfl
      | ok found => simp [Except.map]

theorem blockFrom_of_balanced {body : List Piece} (h : IsBody body) (first index : Nat)
    (rest : List Piece) :
    blockFrom first 0 index (body ++ .char '\x7d' :: rest) = .ok (body, rest) := by
  obtain ⟨index', e⟩ := blockFrom_append h.balanced h.written.isClosed first 0 index
    (.char '\x7d' :: rest)
  rw [e]
  simp [blockFrom, Except.map]

/-- What stands in a block when a number of blocks inside it are still open: balanced pieces, a
closing brace for each of the open blocks, and balanced pieces behind each. -/
inductive IsInside : Nat → List Piece → Prop
  | balanced {ps : List Piece} (h : Balanced ps) : IsInside 0 ps
  | close {depth : Nat} {ps qs : List Piece} (hps : Balanced ps) (hqs : IsInside depth qs) :
      IsInside (depth + 1) (ps ++ .char '\x7d' :: qs)

theorem IsInside.cons {depth : Nat} {p : Piece} {ps : List Piece} (hopen : p ≠ .char '\x7b')
    (hclose : p ≠ .char '\x7d') (h : IsInside depth ps) : IsInside depth (p :: ps) := by
  cases h with
  | balanced h => exact .balanced (.piece hopen hclose h)
  | close hps hqs => exact .close (.piece hopen hclose hps) hqs

/-- Opening a block leaves one more to close behind. -/
theorem IsInside.open {depth : Nat} {ps : List Piece} (h : IsInside (depth + 1) ps) :
    IsInside depth (.char '\x7b' :: ps) := by
  cases h with
  | close hps hqs =>
      cases hqs with
      | balanced h => exact .balanced (.block hps h)
      | @close depth qs rs hqs hrs =>
          have := IsInside.close (.block hps hqs) hrs
          simpa using this

theorem IsInside.balanced_of_zero {ps : List Piece} (h : IsInside 0 ps) : Balanced ps := by
  cases h with
  | balanced h => exact h

theorem of_blockFrom {first depth index : Nat} {ps inside rest : List Piece}
    (h : blockFrom first depth index ps = .ok (inside, rest)) :
    (∀ p ∈ inside, p.isClosed = true) ∧ IsInside depth inside := by
  induction ps generalizing depth index inside with
  | nil => cases h
  | cons p ps ih =>
      -- Whatever the depth behind it, a piece that is passed over stands at the front.
      have hrec : ∀ depth index, (blockFrom first depth index ps).map
          (fun x => (p :: x.1, x.2)) = .ok (inside, rest) →
          ∃ tail, inside = p :: tail ∧ (∀ p ∈ tail, p.isClosed = true) ∧ IsInside depth tail := by
        intro depth index h
        obtain ⟨⟨tail, rest'⟩, hfound, e⟩ := eq_of_map_ok h
        simp only [Prod.mk.injEq] at e
        obtain ⟨rfl, rfl⟩ := e
        exact ⟨tail, rfl, ih hfound⟩
      cases p with
      | char c =>
          simp only [blockFrom] at h
          split at h
          · rename_i hc
            subst hc
            cases depth with
            | zero =>
                simp only [Except.ok.injEq, Prod.mk.injEq] at h
                obtain ⟨rfl, rfl⟩ := h
                exact ⟨by simp, .balanced .nil⟩
            | succ depth =>
                obtain ⟨tail, rfl, hclosed, hinside⟩ := hrec _ _ h
                exact ⟨List.forall_mem_cons.2 ⟨rfl, hclosed⟩, .close .nil hinside⟩
          · rename_i hclose
            obtain ⟨tail, rfl, hclosed, hinside⟩ := hrec _ _ h
            refine ⟨List.forall_mem_cons.2 ⟨rfl, hclosed⟩, ?_⟩
            by_cases hopen : c = '\x7b'
            · subst hopen
              exact hinside.open
            · rw [if_neg hopen] at hinside
              exact hinside.cons (by simpa using hopen) (by simpa using hclose)
      | quoted s =>
          obtain ⟨tail, rfl, hclosed, hinside⟩ := hrec _ _ h
          exact ⟨List.forall_mem_cons.2 ⟨rfl, hclosed⟩, hinside.cons (by simp) (by simp)⟩
      | comment s =>
          obtain ⟨tail, rfl, hclosed, hinside⟩ := hrec _ _ h
          exact ⟨List.forall_mem_cons.2 ⟨rfl, hclosed⟩, hinside.cons (by simp) (by simp)⟩
      | openString s => cases h
      | openComment s => cases h

/-! ## A passage is read -/

theorem sourceOf_braces (front body : List Piece) :
    sourceOf (front ++ .char '\x7b' :: body ++ [Piece.char '\x7d'])
      = sourceOf front ++ [char '\x7b'] ++ sourceOf body ++ [char '\x7d'] := by
  simp [Piece.source, sourceOf]

theorem readAtRule_statement {front : List Piece} (h : IsAtFront front) (index : Nat)
    (rest : List Piece) :
    readAtRule index (front ++ .char ';' :: rest)
      = .ok (.raw (Passage.statement front).source, rest) := by
  have havoids : Avoids ['\x7d', '\x7b', ';'] front := h.avoids.mono (by simp)
  rw [readAtRule, scanTo_append h.written.isClosed havoids (by decide)]
  simp [bind, Except.bind, Passage.source, Passage.pieces, Piece.source, sourceOf]

theorem readAtRule_block {front body : List Piece} (h : IsAtFront front) (hbody : IsBody body)
    (index : Nat) (rest : List Piece) :
    readAtRule index (front ++ .char '\x7b' :: body ++ .char '\x7d' :: rest)
      = .ok (.raw (Passage.atBlock front body).source, rest) := by
  have havoids : Avoids ['\x7d', '\x7b', ';'] front := h.avoids.mono (by simp)
  rw [readAtRule, List.append_assoc, List.cons_append,
    scanTo_append h.written.isClosed havoids (by decide)]
  rw [Passage.source, Passage.pieces, sourceOf_braces]
  simp [bind, Except.bind, blockFrom_of_balanced hbody]

theorem readRule_passage {prelude body : List Piece} (h : (Passage.rule prelude body).WellFormed)
    {item : Item} (hitem : (Passage.rule prelude body).Yields (some item)) (index : Nat)
    (rest : List Piece) :
    readRule index (prelude ++ .char '\x7b' :: body ++ .char '\x7d' :: rest)
      = .ok (item, rest) := by
  obtain ⟨hprelude, hbody⟩ := h
  have havoids : Avoids ['\x7d', '\x7b'] prelude := hprelude.avoids.mono (by simp)
  rw [readRule, List.append_assoc, List.cons_append,
    scanTo_append hprelude.written.isClosed havoids (by decide)]
  simp only [bind, Except.bind, blockFrom_of_balanced hbody]
  have hselectors := topLevelParts_sourceOf isSeparator_comma hprelude.written
  have hne := hprelude.has_part
  rw [hselectors] at hne ⊢
  have hempty : ¬ ((trimRows (cutRow ',' [] prelude)).map sourceOf).isEmpty = true := fun e =>
    hne (by rw [List.isEmpty_iff.1 e])
  simp only [if_neg hempty]
  cases hitem with
  | nested hbrace =>
      rw [if_pos (by simpa using hbrace), Passage.source, Passage.pieces, sourceOf_braces]
  | rule hbrace hsel hdecl =>
      rw [hselectors] at hsel
      rw [if_neg (by simpa using hbrace), hdecl, Except.ok.inj hsel]

theorem readItem_rule {prelude body : List Piece} (h : (Passage.rule prelude body).WellFormed)
    {item : Item} (hitem : (Passage.rule prelude body).Yields (some item)) {p : Piece}
    {ps rest : List Piece} (e : (Passage.rule prelude body).pieces ++ rest = p :: ps)
    (index : Nat) :
    readItem index p ps = .ok (some item, rest) := by
  have hread := readRule_passage h hitem index rest
  obtain ⟨hprelude, -⟩ := h
  have hshape : (Passage.rule prelude body).pieces ++ rest
      = prelude ++ .char '\x7b' :: body ++ .char '\x7d' :: rest := by simp [Passage.pieces]
  rw [hshape] at e
  rw [e] at hread
  obtain ⟨front, rfl⟩ : ∃ front, prelude = p :: front := by
    cases prelude with
    | nil => exact absurd rfl hprelude.has_part
    | cons q front => exact ⟨front, by rw [(List.cons.inj e).1]⟩
  cases p with
  | char c =>
      have hblank : isBlank c = false := hprelude.not_blank (.char c) rfl
      have hclose : c ≠ '\x7d' := fun e => hprelude.avoids '\x7d' (by decide) (by simp [e])
      have hat : c ≠ '@' := fun e => hprelude.not_at (by simp [e])
      rw [readItem, if_neg (by simp [hblank]), if_neg hclose, if_neg hat, hread]
      rfl
  | quoted s =>
      rw [readItem, hread]
      · rfl
      all_goals simp
  | comment s => exact absurd rfl (hprelude.not_comment s)
  | openString s => cases hprelude.written.isClosed _ List.mem_cons_self
  | openComment s => cases hprelude.written.isClosed _ List.mem_cons_self

/-- A passage is read off the front of whatever follows it, and gives its item. -/
theorem readItem_passage {passage : Passage} (h : passage.WellFormed) {item? : Option Item}
    (hitem : passage.Yields item?) {p : Piece} {ps rest : List Piece}
    (e : passage.pieces ++ rest = p :: ps) (index : Nat) :
    readItem index p ps = .ok (item?, rest) := by
  cases hitem with
  | blank c =>
      obtain ⟨rfl, rfl⟩ := List.cons.inj e
      have hc : isBlank c = true := h
      rw [readItem, if_pos hc]
      rfl
  | comment inside =>
      obtain ⟨rfl, rfl⟩ := List.cons.inj e
      rw [readItem, Passage.source, Passage.pieces, sourceOf_cons]
      simp [sourceOf, Piece.source]
  | statement front =>
      have hread := readAtRule_statement h index rest
      rw [Passage.pieces, List.append_assoc, List.singleton_append] at e
      obtain rfl := IsAtFront.eq_at_sign h e
      rw [readItem, if_neg (by decide), if_neg (by decide), if_pos rfl, ← e, hread]
      rfl
  | atBlock front body =>
      have hread := readAtRule_block h.1 h.2 index rest
      have hshape : (Passage.atBlock front body).pieces ++ rest
          = front ++ .char '\x7b' :: body ++ .char '\x7d' :: rest := by simp [Passage.pieces]
      rw [hshape] at e
      obtain rfl := h.1.eq_at_sign ((List.append_assoc _ _ _).symm.trans e)
      rw [readItem, if_neg (by decide), if_neg (by decide), if_pos rfl, ← e, hread]
      rfl
  | @nested prelude body hbrace => exact readItem_rule h (.nested hbrace) e index
  | @rule prelude body selectors declarations hbrace hsel hdecl =>
      exact readItem_rule h (.rule hbrace hsel hdecl) e index

theorem Passage.WellFormed.pieces_ne_nil {passage : Passage} (h : passage.WellFormed) :
    passage.pieces ≠ [] := by
  cases passage <;> simp [pieces]

theorem itemsFrom_passage {passage : Passage} (h : passage.WellFormed) {item? : Option Item}
    (hitem : passage.Yields item?) (index : Nat) (rest : List Piece) :
    ∃ index', itemsFrom index (passage.pieces ++ rest)
      = (itemsFrom index' rest).map (item?.toList ++ ·) := by
  cases e : passage.pieces ++ rest with
  | nil => exact absurd (List.append_eq_nil_iff.1 e).1 h.pieces_ne_nil
  | cons p ps =>
      have hle : rest.length ≤ ps.length := by
        have hlength := congrArg List.length e
        have hpos := List.length_pos_iff.2 h.pieces_ne_nil
        simp only [List.length_append, List.length_cons] at hlength
        omega
      rw [itemsFrom, readItem_passage h hitem e]
      exact ⟨_, if_pos hle⟩

/-- The passages of a layout are read one after the other. -/
theorem itemsFrom_layout {layout : List Passage} (h : ∀ passage ∈ layout, passage.WellFormed)
    {items : List (Option Item)} (hitems : List.Forall₂ Passage.Yields layout items) (index : Nat) :
    itemsFrom index (layout.flatMap Passage.pieces) = .ok (items.flatMap Option.toList) := by
  induction hitems generalizing index with
  | nil => simp [itemsFrom]
  | @cons passage item? layout items hitem hitems ih =>
      obtain ⟨hpassage, hlayout⟩ := List.forall_mem_cons.1 h
      obtain ⟨index', e⟩ :=
        itemsFrom_passage hpassage hitem index (layout.flatMap Passage.pieces)
      rw [List.flatMap_cons, e, ih hlayout]
      rfl

/-! ## What is read is a passage -/

/-- What a reader takes off the front of some pieces: closed pieces, at least one, that are a
passage when they are written. -/
def TakesPassage (ps rest : List Piece) (item? : Option Item) : Prop :=
  ∃ front, ps = front ++ rest ∧ front ≠ [] ∧ (∀ p ∈ front, p.isClosed = true) ∧
    (Written front → ∃ passage : Passage,
      passage.WellFormed ∧ passage.pieces = front ∧ passage.Yields item?)

/-- A front without stops and the balanced block behind it, as they stand before the rest of some
pieces. -/
structure TakesBlock (stops : Text) (ps front inside rest : List Piece) : Prop where
  pieces_eq : ps = front ++ .char '\x7b' :: inside ++ .char '\x7d' :: rest
  closed : ∀ p ∈ front, p.isClosed = true
  avoids : Avoids ('\x7d' :: stops) front
  inside_closed : ∀ p ∈ inside, p.isClosed = true
  balanced : Balanced inside

theorem takesBlock_of_scanTo {stops : Text} {index first index' : Nat}
    {ps front after inside rest : List Piece}
    (hscan : scanTo stops index ps = .ok (some (front, '\x7b', after)))
    (hblock : blockFrom first 0 index' after = .ok (inside, rest)) :
    TakesBlock stops ps front inside rest := by
  obtain ⟨hclosed, havoids⟩ := closed_of_scanTo hscan
  obtain ⟨hinsideClosed, hinside⟩ := of_blockFrom hblock
  refine ⟨?_, hclosed, havoids, hinsideClosed, hinside.balanced_of_zero⟩
  rw [(eq_of_scanTo hscan).1, eq_of_blockFrom hblock]
  simp

/-- A front and a block are a passage when each of them, once written, is as the passage asks. -/
theorem TakesBlock.takesPassage {stops : Text} {ps front inside rest : List Piece}
    {item? : Option Item} (h : TakesBlock stops ps front inside rest)
    (hpassage : Written front → IsBody inside → ∃ passage : Passage, passage.WellFormed ∧
      passage.pieces = front ++ .char '\x7b' :: inside ++ [Piece.char '\x7d'] ∧
        passage.Yields item?) :
    TakesPassage ps rest item? := by
  refine ⟨front ++ .char '\x7b' :: inside ++ [Piece.char '\x7d'], ?_, by simp, ?_,
    fun hwritten => ?_⟩
  · rw [h.pieces_eq]
    simp
  · simp only [List.forall_mem_append, List.forall_mem_cons]
    exact ⟨⟨h.closed, rfl, h.inside_closed⟩, rfl, by simp⟩
  · have hfront : Written front :=
      hwritten.of_infix ⟨[], .char '\x7b' :: inside ++ [Piece.char '\x7d'], by simp⟩
    have hinside : Written inside :=
      hwritten.of_infix ⟨front ++ [Piece.char '\x7b'], [.char '\x7d'], by simp⟩
    exact hpassage hfront ⟨hinside, h.balanced⟩

/-- An at-rule that is read is a front with a semicolon or a block behind it, as it is written. -/
theorem of_readAtRule {index : Nat} {ps rest : List Piece} {item : Item}
    (h : readAtRule index ps = .ok (item, rest)) :
    (∃ front, scanTo ['\x7b', ';'] index ps = .ok (some (front, ';', rest)) ∧
        item = .raw (Passage.statement front).source) ∨
      ∃ front inside, TakesBlock ['\x7b', ';'] ps front inside rest ∧
        item = .raw (Passage.atBlock front inside).source := by
  rcases readAtRule_cases h with ⟨front, hscan, rfl⟩
    | ⟨front, after, first, inside, hscan, hblock, rfl⟩
  · refine .inl ⟨front, hscan, ?_⟩
    rw [Passage.source, Passage.pieces, sourceOf_append]
    rfl
  · refine .inr ⟨front, inside, takesBlock_of_scanTo hscan hblock, ?_⟩
    rw [Passage.source, Passage.pieces, sourceOf_braces]

/-- A rule that is read is a front with a part that is not blank and a block behind it. -/
theorem of_readRule {index : Nat} {ps rest : List Piece} {item : Item}
    (h : readRule index ps = .ok (item, rest)) :
    ∃ front inside, TakesBlock ['\x7b'] ps front inside rest ∧
      topLevelParts ',' (sourceOf front) ≠ .ok [] ∧
      (Passage.rule front inside).Yields (some item) := by
  obtain ⟨front, after, first, inside, selectors, hscan, hblock, hselectors, hne, hitem⟩ :=
    readRule_cases h
  refine ⟨front, inside, takesBlock_of_scanTo hscan hblock, fun e => hne ?_, ?_⟩
  · exact Except.ok.inj (hselectors.symm.trans e)
  · rcases hitem with ⟨hbrace, rfl⟩ | ⟨hbrace, declarations, hdeclarations, rfl⟩
    · have hnested : (Passage.rule front inside).Yields
          (some (.raw (Passage.rule front inside).source)) := .nested hbrace
      rwa [Passage.source, Passage.pieces, sourceOf_braces] at hnested
    · exact .rule hbrace hselectors hdeclarations

theorem takesPassage_of_readAtRule {index : Nat} {ps rest : List Piece} {item : Item}
    (h : readAtRule index ps = .ok (item, rest)) (hat : ps.head? = some (.char '@')) :
    TakesPassage ps rest (some item) := by
  rcases of_readAtRule h with ⟨front, hscan, rfl⟩ | ⟨front, inside, hblock, rfl⟩
  · obtain ⟨hclosed, havoids⟩ := closed_of_scanTo hscan
    rw [(eq_of_scanTo hscan).1] at hat ⊢
    refine ⟨front ++ [Piece.char ';'], by simp, by simp,
      List.forall_mem_append.2 ⟨hclosed, by simp [Piece.isClosed]⟩, fun hwritten => ?_⟩
    have hfront : IsAtFront front :=
      ⟨(written_append_iff.1 hwritten).1, head?_eq_at_sign (by decide) hat, havoids.mono (by simp)⟩
    exact ⟨.statement front, hfront, rfl, .statement front⟩
  · refine hblock.takesPassage fun hwritten hinside => ?_
    rw [hblock.pieces_eq, List.append_assoc] at hat
    have hfront : IsAtFront front :=
      ⟨hwritten, head?_eq_at_sign (by decide) hat, hblock.avoids.mono (by simp)⟩
    exact ⟨.atBlock front inside, ⟨hfront, hinside⟩, rfl, .atBlock front inside⟩

theorem takesPassage_of_readRule {index : Nat} {ps rest : List Piece} {item : Item}
    (h : readRule index ps = .ok (item, rest)) (hblank : ∀ p ∈ ps.head?, p.isBlank = false)
    (hat : ps.head? ≠ some (.char '@')) (hcomment : ∀ s, ps.head? ≠ some (.comment s)) :
    TakesPassage ps rest (some item) := by
  obtain ⟨front, inside, hblock, hpart, hyields⟩ := of_readRule h
  have hhead : ∀ p ∈ front.head?, p ∈ ps.head? := by
    intro p hp
    rw [hblock.pieces_eq, List.append_assoc, List.head?_append, Option.mem_def.1 hp]
    rfl
  refine hblock.takesPassage fun hwritten hinside => ?_
  have hprelude : IsPrelude front := {
    written := hwritten
    avoids := hblock.avoids.mono (by simp)
    not_blank := fun p hp => hblank p (hhead p hp)
    not_at := fun hp => hat (hhead _ hp)
    not_comment := fun s hp => hcomment s (hhead _ hp)
    has_part := hpart }
  exact ⟨.rule front inside, ⟨hprelude, hinside⟩, rfl, hyields⟩

/-- Whatever is read off the front of some pieces is a passage. -/
theorem takesPassage_of_readItem {index : Nat} {p : Piece} {ps rest : List Piece}
    {item? : Option Item} (h : readItem index p ps = .ok (item?, rest)) :
    TakesPassage (p :: ps) rest item? := by
  rcases readItem_cases h with ⟨c, hblank, rfl, rfl, rfl⟩ | ⟨s, rfl, rfl, rfl⟩
    | ⟨item, rfl, hread, rfl⟩ | ⟨item, hread, rfl, hchar, hcomment⟩
  · exact ⟨[.char c], rfl, by simp, by simp [Piece.isClosed],
      fun _ => ⟨.blank c, hblank, rfl, .blank c⟩⟩
  · refine ⟨[.comment s], rfl, by simp, by simp [Piece.isClosed], fun hwritten => ?_⟩
    cases hwritten.isWhole _ List.mem_cons_self with
    | @comment inside hinside =>
        refine ⟨.comment inside, hinside, rfl, ?_⟩
        have := Passage.Yields.comment inside
        simpa [Passage.source, Passage.pieces, sourceOf, Piece.source] using this
  · exact takesPassage_of_readAtRule hread rfl
  · have hblank : p.isBlank = false := by
      cases p with
      | char c => exact (hchar c rfl).1
      | _ => rfl
    exact takesPassage_of_readRule hread (by simpa using hblank)
      (fun hat => (hchar '@' (Option.some.inj hat)).2 rfl) (by simpa using hcomment)

/-- Pieces that are read to their end are closed, and have a layout when they are written. -/
theorem exists_layout_of_itemsFrom {index : Nat} {ps : List Piece} {sheet : Stylesheet}
    (h : itemsFrom index ps = .ok sheet) :
    (∀ p ∈ ps, p.isClosed = true) ∧ (Written ps → ∃ layout items,
      (∀ passage ∈ layout, passage.WellFormed) ∧ layout.flatMap Passage.pieces = ps ∧
        List.Forall₂ Passage.Yields layout items ∧ items.flatMap Option.toList = sheet) := by
  induction hlen : ps.length using Nat.strongRecOn generalizing index ps sheet with
  | ind n ih =>
    cases ps with
    | nil =>
        simp only [itemsFrom, Except.ok.injEq] at h
        exact ⟨by simp, fun _ => ⟨[], [], by simp, rfl, .nil, h⟩⟩
    | cons p ps =>
        rw [itemsFrom] at h
        split at h
        · cases h
        · rename_i item? after hread
          obtain ⟨front, e, hne, hclosed, hpassage⟩ := takesPassage_of_readItem hread
          have hlength := congrArg List.length e
          have hpos := List.length_pos_iff.2 hne
          simp only [List.length_append, List.length_cons] at hlength hlen
          rw [if_pos (by omega)] at h
          obtain ⟨sheet', hsheet', rfl⟩ := eq_of_map_ok h
          obtain ⟨hclosedAfter, hlayout⟩ := ih _ (by omega) hsheet' rfl
          rw [e]
          refine ⟨List.forall_mem_append.2 ⟨hclosed, hclosedAfter⟩, fun hwritten => ?_⟩
          obtain ⟨hfront, hafter, -⟩ := written_append_iff.1 hwritten
          obtain ⟨passage, hwf, hpieces, hyields⟩ := hpassage hfront
          obtain ⟨layout, items, hwf', hpieces', hyields', rfl⟩ := hlayout hafter
          exact ⟨passage :: layout, item? :: items, List.forall_mem_cons.2 ⟨hwf, hwf'⟩,
            by rw [List.flatMap_cons, hpieces, hpieces'], .cons hyields hyields', rfl⟩

/-! ## Reading and layouts -/

/-- The items of a layout are what its text is read into. -/
theorem parse_of_isLayout {s : Text} {layout : List Passage} (h : IsLayout s layout)
    {items : List (Option Item)} (hitems : List.Forall₂ Passage.Yields layout items) :
    Stylesheet.parse s = .ok (items.flatMap Option.toList) := by
  rw [Stylesheet.parse, h.pieces_eq]
  exact itemsFrom_layout h.wellFormed hitems 0

/-- A text that is read has a layout, with the items that are read. -/
theorem exists_layout_of_parse {s : Text} {sheet : Stylesheet}
    (h : Stylesheet.parse s = .ok sheet) :
    ∃ layout items, IsLayout s layout ∧ List.Forall₂ Passage.Yields layout items ∧
      sheet = items.flatMap Option.toList := by
  obtain ⟨hclosed, hlayout⟩ := exists_layout_of_itemsFrom h
  obtain ⟨layout, items, hwf, hpieces, hyields, rfl⟩ := hlayout (written_pieces hclosed)
  refine ⟨layout, items, ⟨hwf, ?_⟩, hyields, rfl⟩
  rw [← sourceOf_flatMap, hpieces, sourceOf_pieces]

theorem exists_items {layout : List Passage} (h : ∀ passage ∈ layout, passage.WellFormed) :
    ∃ items, List.Forall₂ Passage.Yields layout items := by
  induction layout with
  | nil => exact ⟨[], .nil⟩
  | cons passage layout ih =>
      obtain ⟨hpassage, hlayout⟩ := List.forall_mem_cons.1 h
      obtain ⟨item?, hitem⟩ := hpassage.exists_yields
      obtain ⟨items, hitems⟩ := ih hlayout
      exact ⟨item? :: items, .cons hitem hitems⟩

/-- **Reading accepts the grammar and loses nothing.** A text is read exactly when it has a
layout, and is faulty otherwise; what is read are the items of the layout, one for each passage
that is no blank, in the order of the text. -/
theorem parse_iff_isLayout (s : Text) :
    ((∃ sheet, Stylesheet.parse s = .ok sheet) ↔ ∃ layout, IsLayout s layout) ∧
      ((∃ fault, Stylesheet.parse s = .error fault) ↔ ¬ ∃ layout, IsLayout s layout) ∧
      ∀ sheet, Stylesheet.parse s = .ok sheet ↔
        ∃ layout items, IsLayout s layout ∧ List.Forall₂ Passage.Yields layout items ∧
          sheet = items.flatMap Option.toList := by
  have hread : (∃ sheet, Stylesheet.parse s = .ok sheet) ↔ ∃ layout, IsLayout s layout := by
    constructor
    · rintro ⟨sheet, h⟩
      obtain ⟨layout, -, hlayout, -⟩ := exists_layout_of_parse h
      exact ⟨layout, hlayout⟩
    · rintro ⟨layout, h⟩
      obtain ⟨items, hitems⟩ := exists_items h.wellFormed
      exact ⟨_, parse_of_isLayout h hitems⟩
  refine ⟨hread, ?_, fun sheet => ⟨exists_layout_of_parse, ?_⟩⟩
  · rw [← hread]
    cases Stylesheet.parse s <;> simp
  · rintro ⟨layout, items, hlayout, hitems, rfl⟩
    exact parse_of_isLayout hlayout hitems

end Stencil.Css
