import Stencil.Proofs.Css.Layout

set_option autoImplicit false

/-! # Writing a style sheet and reading it again

An item is readable when its text is a passage that stands for it (`Item.IsReadable`), and a
sheet of readable items is read back from its text (`parse_render`). What was kept as it was
written is readable. A rule is written anew, from the rows of its selectors and declarations; it
is readable when its text begins as a rule begins and its declarations close what they open
(`isReadable_rule`): the last selector may leave a bracket open, since nothing but the block
follows it, while a declaration that did would take the semicolon behind it along.
-/

namespace Stencil.Css

open Text

/-! ## Readable items -/

/-- Whether the text of an item is a passage that stands for the item. -/
def Item.IsReadable (item : Item) : Prop :=
  ∃ passage : Passage,
    passage.WellFormed ∧ passage.source = item.render ∧ passage.Yields (some item)

theorem source_blank (c : CodePoint) : (Passage.blank c).source = [c] := rfl

/-- The items of a sheet are read back from its text, when each is readable. -/
theorem parse_render {sheet : Stylesheet} (h : ∀ item ∈ sheet, item.IsReadable) :
    Stylesheet.parse sheet.render = .ok sheet := by
  have hbreak : (Passage.blank '\n').WellFormed := rfl
  have key : ∀ sheet : Stylesheet, (∀ item ∈ sheet, item.IsReadable) →
      ∃ layout items, IsLayout sheet.render layout ∧ List.Forall₂ Passage.Yields layout items ∧
        items.flatMap Option.toList = sheet := by
    intro sheet
    induction sheet with
    | nil => exact fun _ => ⟨[], [], ⟨by simp, rfl⟩, .nil, rfl⟩
    | cons item sheet ih =>
        intro h
        obtain ⟨⟨passage, hwf, hsource, hyields⟩, hsheet⟩ := List.forall_mem_cons.1 h
        cases sheet with
        | nil =>
            refine ⟨[passage], [some item], ⟨by simpa using hwf, ?_⟩, .cons hyields .nil, rfl⟩
            simp [hsource, Stylesheet.render, join]
        | cons next sheet =>
            obtain ⟨layout, items, hlayout, hitems, e⟩ := ih hsheet
            refine ⟨passage :: .blank '\n' :: .blank '\n' :: layout,
              some item :: none :: none :: items, ⟨?_, ?_⟩,
              .cons hyields (.cons (.blank _) (.cons (.blank _) hitems)), ?_⟩
            · simp only [List.forall_mem_cons]
              exact ⟨hwf, hbreak, hbreak, hlayout.wellFormed⟩
            · rw [List.flatMap_cons, List.flatMap_cons, List.flatMap_cons, hlayout.source, hsource,
                source_blank]
              simp [Stylesheet.render, join]
            · simp [e]
  obtain ⟨layout, items, hlayout, hitems, rfl⟩ := key sheet h
  exact parse_of_isLayout hlayout hitems

/-- Every item of a sheet that is read stands for a passage of the text. -/
theorem exists_passage_of_mem {s : Text} {sheet : Stylesheet} (h : Stylesheet.parse s = .ok sheet)
    {item : Item} (hitem : item ∈ sheet) :
    ∃ passage : Passage,
      passage.WellFormed ∧ passage.Yields (some item) ∧ passage.source <:+: s := by
  obtain ⟨layout, items, hlayout, hyields, rfl⟩ := exists_layout_of_parse h
  obtain ⟨hwf, rfl⟩ := hlayout
  clear h
  induction hyields with
  | nil => cases hitem
  | @cons passage item? layout items hpassage hrest ih =>
      obtain ⟨hfirst, hwf⟩ := List.forall_mem_cons.1 hwf
      rw [List.flatMap_cons, List.mem_append] at hitem
      rw [List.flatMap_cons]
      rcases hitem with hitem | hitem
      · obtain rfl : item? = some item := by
          cases item? with
          | none => cases hitem
          | some found => rw [List.mem_singleton.1 hitem]
        exact ⟨passage, hfirst, hpassage, (List.prefix_append _ _).isInfix⟩
      · obtain ⟨found, hfound, hyields, hslice⟩ := ih hitem hwf
        exact ⟨found, hfound, hyields, hslice.trans (List.suffix_append _ _).isInfix⟩

/-- What is kept as it is written is readable. -/
theorem isReadable_raw {s : Text} {passage : Passage} (h : passage.WellFormed)
    (hyields : passage.Yields (some (.raw s))) : (Item.raw s).IsReadable := by
  refine ⟨passage, h, ?_, hyields⟩
  cases hyields <;> rfl

/-! ## The rows of a rule -/

/-- Whether rows can be the selectors of a rule, in the order in which they stand. -/
structure AreSelectors (rows : List (List Piece)) : Prop where
  parts : AreParts ',' [] rows
  written : ∀ row ∈ rows, Written row
  trimmed : ∀ row ∈ rows, IsTrimmed row ∧ row ≠ []
  avoids : ∀ row ∈ rows, Avoids ['\x7b', '\x7d'] row

/-- Whether a row can be a declaration of a rule: it holds no opening brace at all. -/
structure IsDeclaration (row : List Piece) : Prop where
  written : Written row
  trimmed : IsTrimmed row ∧ row ≠ []
  uncut : IsUncut ';' [] row
  avoids : Avoids ['\x7d'] row
  brace : .char '\x7b' ∉ sourceOf row

theorem infix_sourceOf {ps qs : List Piece} (h : ps <:+: qs) : sourceOf ps <:+: sourceOf qs := by
  obtain ⟨a, b, rfl⟩ := h
  exact ⟨sourceOf a, sourceOf b, by rw [sourceOf_append, sourceOf_append]⟩

theorem AreParts.isUncut {sep : CodePoint} {rows : List (List Piece)} (h : AreParts sep [] rows) :
    ∀ row ∈ rows, IsUncut sep [] row := by
  generalize hstack : ([] : Text) = stack at h
  induction h with
  | last h =>
      subst hstack
      exact List.forall_mem_singleton.2 h
  | cons h _ _ ih =>
      subst hstack
      exact List.forall_mem_cons.2 ⟨h, ih rfl⟩

/-- Balanced pieces without an opening brace have no closing one either. -/
theorem Balanced.not_mem_close {ps : List Piece} (h : Balanced ps)
    (hopen : .char '\x7b' ∉ ps) : .char '\x7d' ∉ ps := by
  induction h with
  | nil => simp
  | piece _ hclose _ ih =>
      simp only [List.mem_cons, not_or] at hopen ⊢
      exact ⟨hclose.symm, ih hopen.2⟩
  | block => simp at hopen

theorem balanced_of_avoids {ps : List Piece} (h : Avoids ['\x7b', '\x7d'] ps) : Balanced ps := by
  induction ps with
  | nil => exact .nil
  | cons p ps ih =>
      refine .piece (fun e => ?_) (fun e => ?_)
        (ih fun c hc hmem => h c hc (List.mem_cons_of_mem p hmem))
      exacts [h '\x7b' (by simp) (by simp [e]), h '\x7d' (by simp) (by simp [e])]

/-- A character of its own stands in the source. -/
theorem mem_sourceOf {c : CodePoint} {ps : List Piece} (h : .char c ∈ ps) : c ∈ sourceOf ps :=
  List.mem_flatMap.2 ⟨.char c, h, List.mem_singleton.2 rfl⟩

/-- The selectors and declarations of a rule, as rows of the passage it was read from. -/
theorem exists_rows_of_yields {passage : Passage} (h : passage.WellFormed)
    {selectors declarations : List Text}
    (hyields : passage.Yields (some (.rule selectors declarations))) :
    ∃ rows drows : List (List Piece),
      selectors = rows.map sourceOf ∧ declarations = drows.map sourceOf ∧
      AreSelectors rows ∧ (∀ row ∈ drows, IsDeclaration row) ∧
      ∀ row ∈ rows, sourceOf row <:+: passage.source := by
  cases hyields with
  | @rule prelude body _ _ hbrace hselectors hdeclarations =>
      obtain ⟨hprelude, hbody⟩ := h
      obtain ⟨rows, rfl, hrows, hparts⟩ :=
        exists_rows_of_topLevelParts isSeparator_comma hprelude.written hselectors
      obtain ⟨drows, rfl, hdrows, hdparts⟩ :=
        exists_rows_of_topLevelParts isSeparator_semicolon hbody.written hdeclarations
      have hne : rows ≠ [] := by
        rintro rfl
        exact hprelude.has_part hselectors
      have hclose : .char '\x7d' ∉ body :=
        hbody.balanced.not_mem_close fun hmem => hbrace (mem_sourceOf hmem)
      refine ⟨rows, drows, rfl, rfl, ⟨hparts hne, fun row hrow => (hrows row hrow).written,
        fun row hrow => ⟨(hrows row hrow).trimmed, (hrows row hrow).ne_nil⟩,
        fun row hrow c hc hmem => ?_⟩, fun row hrow => ?_, fun row hrow => ?_⟩
      · exact hprelude.avoids c hc ((hrows row hrow).slice.subset hmem)
      · have hpart := hdrows row hrow
        exact {
          written := hpart.written
          trimmed := ⟨hpart.trimmed, hpart.ne_nil⟩
          uncut := (hdparts (List.ne_nil_of_mem hrow)).isUncut row hrow
          avoids := fun c hc hmem => hclose (by
            obtain rfl := List.mem_singleton.1 hc
            exact hpart.slice.subset hmem)
          brace := fun hmem => hbrace ((infix_sourceOf hpart.slice).subset hmem) }
      · have hslice : prelude <:+: (Passage.rule prelude body).pieces :=
          ⟨[], .char '\x7b' :: body ++ [Piece.char '\x7d'], by simp [Passage.pieces]⟩
        exact infix_sourceOf ((hrows row hrow).slice.trans hslice)

/-! ## The selectors, written -/

/-- The pieces of selectors as they are written, one a line, with the space behind them. -/
def selectorsRow : List (List Piece) → List Piece
  | [] => [.char ' ']
  | [row] => row ++ [Piece.char ' ']
  | row :: rows => row ++ .char ',' :: .char '\n' :: selectorsRow rows

theorem selectorsRow_cons {row : List Piece} {rows : List (List Piece)} (h : rows ≠ []) :
    selectorsRow (row :: rows) = row ++ .char ',' :: .char '\n' :: selectorsRow rows := by
  cases rows with
  | nil => exact absurd rfl h
  | cons next rows => rfl

theorem AreParts.ne_nil {sep : CodePoint} {stack : Text} {rows : List (List Piece)}
    (h : AreParts sep stack rows) : rows ≠ [] := by
  cases h <;> simp

theorem sourceOf_selectorsRow {stack : Text} {rows : List (List Piece)}
    (h : AreParts ',' stack rows) :
    sourceOf (selectorsRow rows) = join ",\n".text (rows.map sourceOf) ++ [char ' '] := by
  induction h with
  | last => simp [selectorsRow, sourceOf, Piece.source, join]
  | @cons stack row rows _ _ hrows ih =>
      rw [selectorsRow_cons hrows.ne_nil, sourceOf_append, sourceOf_cons, sourceOf_cons, ih]
      cases rows with
      | nil => exact absurd rfl hrows.ne_nil
      | cons next rows => simp [join, Piece.source]

theorem written_selectorsRow {rows : List (List Piece)} (h : ∀ row ∈ rows, Written row) :
    Written (selectorsRow rows) := by
  have hspace : Written [.char ' '] := .cons (.char (by decide) (by decide)) (by simp) .nil
  induction rows with
  | nil => exact hspace
  | cons row rows ih =>
      obtain ⟨hrow, hrows⟩ := List.forall_mem_cons.1 h
      by_cases hne : rows = []
      · subst hne
        exact written_append_iff.2 ⟨hrow, hspace, fun _ => by decide⟩
      · rw [selectorsRow_cons hne]
        refine written_append_iff.2 ⟨hrow, .cons (.char (by decide) (by decide)) ?_
          (.cons (.char (by decide) (by decide)) ?_ (ih hrows)), fun _ => by simp⟩
        · exact fun e => absurd e (by decide)
        · exact fun e => absurd e (by decide)

theorem avoids_selectorsRow {rows : List (List Piece)}
    (h : ∀ row ∈ rows, Avoids ['\x7b', '\x7d'] row) :
    Avoids ['\x7b', '\x7d'] (selectorsRow rows) := by
  have hchars : ∀ c ∈ [char '\x7b', char '\x7d'],
      c ≠ char ' ' ∧ c ≠ char ',' ∧ c ≠ char '\n' := by decide
  intro c hc
  obtain ⟨hspace, hcomma, hbreak⟩ := hchars c hc
  induction rows with
  | nil => simpa [selectorsRow] using hspace
  | cons row rows ih =>
      obtain ⟨hrow, hrows⟩ := List.forall_mem_cons.1 h
      by_cases hne : rows = []
      · subst hne
        simpa [selectorsRow, hspace] using hrow c hc
      · rw [selectorsRow_cons hne]
        simpa [hcomma, hbreak, ih hrows] using hrow c hc

theorem isBlankRow_nil : IsBlankRow [] := by simp [IsBlankRow]

theorem trimRows_cons {a row b : List Piece} {rows : List (List Piece)} (ha : IsBlankRow a)
    (hb : IsBlankRow b) (h : IsTrimmed row ∧ row ≠ []) :
    trimRows ((a ++ row ++ b) :: rows) = row :: trimRows rows := by
  have htrim := trimRow_pad ha hb h.1 h.2
  rw [trimRows, List.map_cons, htrim, List.filter_cons_of_pos (by simp [h.2])]
  rfl

/-- Selectors that are written are found again. -/
theorem trimRows_selectorsRow {stack : Text} (hstack : IsStack stack) {rows : List (List Piece)}
    (h : AreParts ',' stack rows) (hrows : ∀ row ∈ rows, IsTrimmed row ∧ row ≠ [])
    {pad : List Piece} (hpad : IsBlankRow pad) :
    trimRows (cutRow ',' stack (pad ++ selectorsRow rows)) = rows := by
  induction h generalizing pad with
  | @last stack row hrow =>
      have hspace : IsBlankRow [.char ' '] := by decide
      have hshape : pad ++ selectorsRow [row] = pad ++ row ++ [Piece.char ' '] := by
        simp [selectorsRow]
      rw [hshape, cutRow_of_isUncut ((isUncut_pad isSeparator_comma hpad hspace hstack).2 hrow),
        trimRows_cons hpad hspace (hrows row (by simp))]
      rfl
  | @cons stack row rows hrow hafter hparts ih =>
      obtain ⟨htrim, hrest⟩ := List.forall_mem_cons.1 hrows
      have hbreak : IsBlankRow [.char '\n'] := by decide
      have hshape : pad ++ selectorsRow (row :: rows)
          = pad ++ row ++ [] ++ .char ',' :: ([Piece.char '\n'] ++ selectorsRow rows) := by
        simp [selectorsRow_cons hparts.ne_nil]
      have huncut := (isUncut_pad isSeparator_comma hpad isBlankRow_nil hstack).2 hrow
      have hclosed : stackAfter stack (pad ++ row ++ []) = [] := by
        rw [stackAfter_pad hpad isBlankRow_nil hstack, hafter]
      rw [hshape, cutRow_append_separator huncut hclosed, trimRows_cons hpad isBlankRow_nil htrim,
        ih isStack_nil hrest hbreak]

theorem topLevelParts_selectorsRow {rows : List (List Piece)} (h : AreSelectors rows) :
    topLevelParts ',' (sourceOf (selectorsRow rows)) = .ok (rows.map sourceOf) := by
  rw [topLevelParts_sourceOf isSeparator_comma (written_selectorsRow h.written)]
  have := trimRows_selectorsRow isStack_nil h.parts h.trimmed isBlankRow_nil
  rw [List.nil_append] at this
  rw [this]

/-! ## The declarations, written -/

/-- The pieces of declarations as they are written, one a line, with the line break behind them. -/
def declarationsRow (rows : List (List Piece)) : List Piece :=
  rows.flatMap (fun row => ("\n  ".text.map .char ++ row) ++ [Piece.char ';']) ++ [Piece.char '\n']

theorem declarationsRow_cons (row : List Piece) (rows : List (List Piece)) :
    declarationsRow (row :: rows)
      = "\n  ".text.map .char ++ row ++ .char ';' :: declarationsRow rows := by
  simp [declarationsRow]

theorem sourceOf_declarationsRow (rows : List (List Piece)) :
    sourceOf (declarationsRow rows)
      = (rows.map sourceOf).flatMap (fun d => "\n  ".text ++ d ++ [char ';']) ++ [char '\n'] := by
  induction rows with
  | nil => rfl
  | cons row rows ih =>
      rw [declarationsRow_cons, sourceOf_append, sourceOf_append, sourceOf_chars, sourceOf_cons, ih]
      simp [Piece.source]

theorem written_declarationsRow {rows : List (List Piece)} (h : ∀ row ∈ rows, IsDeclaration row) :
    Written (declarationsRow rows) := by
  induction rows with
  | nil => exact .cons (.char (by decide) (by decide)) (by simp) .nil
  | cons row rows ih =>
      obtain ⟨hrow, hrows⟩ := List.forall_mem_cons.1 h
      have hpad : Written ("\n  ".text.map Piece.char) := written_chars (by decide)
      rw [declarationsRow_cons]
      exact written_append_iff.2 ⟨hpad.append hrow.written (by decide),
        .cons (.char (by decide) (by decide)) (fun e => absurd e (by decide)) (ih hrows),
        fun _ => by simp⟩

theorem avoids_declarationsRow {rows : List (List Piece)} (h : ∀ row ∈ rows, IsDeclaration row) :
    Avoids ['\x7d'] (declarationsRow rows) ∧ .char '\x7b' ∉ sourceOf (declarationsRow rows) := by
  induction rows with
  | nil => exact ⟨by simp [Avoids, declarationsRow], by decide⟩
  | cons row rows ih =>
      obtain ⟨hrow, hrows⟩ := List.forall_mem_cons.1 h
      obtain ⟨hclose, hopen⟩ := ih hrows
      rw [declarationsRow_cons]
      constructor
      · intro c hc
        have hchars : c ≠ '\n' ∧ c ≠ ' ' ∧ c ≠ ';' := by
          rw [List.mem_singleton.1 hc]
          decide
        simpa [hchars, hrow.avoids c hc] using hclose c hc
      · rw [sourceOf_append, sourceOf_append, sourceOf_chars, sourceOf_cons]
        simpa [Piece.source, hrow.brace] using hopen

/-- Declarations that are written are found again, if each closes what it opens. -/
theorem trimRows_declarationsRow {rows : List (List Piece)} (h : ∀ row ∈ rows, IsDeclaration row)
    (hclosed : ∀ row ∈ rows, stackAfter [] row = []) :
    trimRows (cutRow ';' [] (declarationsRow rows)) = rows := by
  have hpad : IsBlankRow ("\n  ".text.map Piece.char) := by decide
  have hbreak : IsBlankRow [.char '\n'] := by decide
  induction rows with
  | nil =>
      show trimRows (cutRow (.char ';') [] [.char '\n']) = []
      rw [cutRow_of_isUncut (isUncut_of_isBlankRow isSeparator_semicolon hbreak isStack_nil)]
      simp [trimRows, trimRow_of_isBlankRow hbreak]
  | cons row rows ih =>
      obtain ⟨hrow, hrows⟩ := List.forall_mem_cons.1 h
      obtain ⟨hafter, hclosed⟩ := List.forall_mem_cons.1 hclosed
      have hshape : declarationsRow (row :: rows)
          = "\n  ".text.map .char ++ row ++ [] ++ .char ';' :: declarationsRow rows := by
        rw [declarationsRow_cons, List.append_nil]
      have huncut :=
        (isUncut_pad isSeparator_semicolon hpad isBlankRow_nil isStack_nil).2 hrow.uncut
      have hstack : stackAfter [] ("\n  ".text.map .char ++ row ++ []) = [] := by
        rw [stackAfter_pad hpad isBlankRow_nil isStack_nil, hafter]
      rw [hshape, cutRow_append_separator huncut hstack,
        trimRows_cons hpad isBlankRow_nil hrow.trimmed, ih hrows hclosed]

theorem topLevelParts_declarationsRow {rows : List (List Piece)}
    (h : ∀ row ∈ rows, IsDeclaration row) (hclosed : ∀ row ∈ rows, stackAfter [] row = []) :
    topLevelParts ';' (sourceOf (declarationsRow rows)) = .ok (rows.map sourceOf) := by
  rw [topLevelParts_sourceOf isSeparator_semicolon (written_declarationsRow h),
    trimRows_declarationsRow h hclosed]

/-! ## Rules -/

theorem head?_selectorsRow {row : List Piece} {rows : List (List Piece)} (h : row ≠ []) :
    (selectorsRow (row :: rows)).head? = row.head? := by
  cases row with
  | nil => exact absurd rfl h
  | cons p row =>
      cases rows with
      | nil => rfl
      | cons next rows => rfl

/-- A rule is readable when it begins as rules begin and its declarations close what they open. -/
theorem isReadable_rule {rows drows : List (List Piece)} (h : AreSelectors rows)
    (hat : ∀ row ∈ rows.head?, row.head? ≠ some (.char '@'))
    (hcomment : ∀ row ∈ rows.head?, ∀ s, row.head? ≠ some (.comment s))
    (hdeclarations : ∀ row ∈ drows, IsDeclaration row)
    (hclosed : ∀ row ∈ drows, stackAfter [] row = []) :
    (Item.rule (rows.map sourceOf) (drows.map sourceOf)).IsReadable := by
  have hparts := topLevelParts_selectorsRow h
  obtain ⟨havoids, hbrace⟩ := avoids_declarationsRow hdeclarations
  obtain ⟨first, rest, rfl⟩ : ∃ first rest, rows = first :: rest := by
    cases rows with
    | nil => exact absurd rfl h.parts.ne_nil
    | cons first rest => exact ⟨first, rest, rfl⟩
  obtain ⟨htrimmed, hne⟩ := h.trimmed first (by simp)
  have hprelude : IsPrelude (selectorsRow (first :: rest)) := {
    written := written_selectorsRow h.written
    avoids := avoids_selectorsRow h.avoids
    not_blank := by
      rw [head?_selectorsRow hne]
      exact htrimmed.1
    not_at := by
      rw [head?_selectorsRow hne]
      exact hat first rfl
    not_comment := by
      rw [head?_selectorsRow hne]
      exact hcomment first rfl
    has_part := by
      rw [hparts]
      simp }
  have hbody : IsBody (declarationsRow drows) :=
    ⟨written_declarationsRow hdeclarations, balanced_of_avoids fun c hc hmem => by
      rcases List.mem_cons.1 hc with rfl | hc
      exacts [hbrace (mem_sourceOf hmem), havoids c hc hmem]⟩
  refine ⟨.rule (selectorsRow (first :: rest)) (declarationsRow drows), ⟨hprelude, hbody⟩, ?_,
    .rule hbrace hparts (topLevelParts_declarationsRow hdeclarations hclosed)⟩
  rw [Passage.source, Passage.pieces, sourceOf_braces, sourceOf_selectorsRow h.parts,
    sourceOf_declarationsRow, Item.render]
  simp

/-! ## The round trip -/

/-- Whether the text of an item begins as it should when the item is a rule: a first selector
that begins with an at sign or a comment would be taken for something else. -/
def Item.BeginsAsRule : Item → Prop
  | .rule selectors _ => ∀ first ∈ selectors.head?,
      startsWith first ['@'] = false ∧ startsWith first ['/', '*'] = false
  | .raw _ => True

/-- Whether the declarations of an item close the parentheses and brackets they open. -/
def Item.ClosesDeclarations : Item → Prop
  | .rule _ declarations => ∀ d ∈ declarations, ClosesBrackets d
  | .raw _ => True

instance : (item : Item) → Decidable item.BeginsAsRule
  | .rule selectors _ => inferInstanceAs (Decidable (∀ first ∈ selectors.head?,
      startsWith first ['@'] = false ∧ startsWith first ['/', '*'] = false))
  | .raw _ => inferInstanceAs (Decidable True)

instance : (item : Item) → Decidable item.ClosesDeclarations
  | .rule _ declarations => inferInstanceAs (Decidable (∀ d ∈ declarations, ClosesBrackets d))
  | .raw _ => inferInstanceAs (Decidable True)

/-- The declarations of an item that closes them leave nothing open as rows. -/
theorem Item.ClosesDeclarations.stackAfter_eq_nil {selectors : List Text}
    {drows : List (List Piece)}
    (h : (Item.rule selectors (drows.map sourceOf)).ClosesDeclarations)
    (hdrows : ∀ row ∈ drows, IsDeclaration row) : ∀ row ∈ drows, stackAfter [] row = [] := by
  intro row hrow
  have hclosed : ClosesBrackets (sourceOf row) := h _ (List.mem_map_of_mem hrow)
  rwa [ClosesBrackets, pieces_sourceOf (hdrows row hrow).written] at hclosed

theorem startsWith_of_head? {row : List Piece} (h : Written row) :
    (row.head? = some (.char '@') → startsWith (sourceOf row) ['@'] = true) ∧
      ∀ s, row.head? = some (.comment s) → startsWith (sourceOf row) ['/', '*'] = true := by
  cases h with
  | nil => simp
  | cons hp hjoint hps =>
      refine ⟨fun e => ?_, fun s e => ?_⟩
      · rw [sourceOf_cons, Option.some.inj e]
        simp [Piece.source, startsWith, after?]
      · rw [Option.some.inj e] at hp
        cases hp with
        | comment => rw [sourceOf_cons, Option.some.inj e]; simp [Piece.source, startsWith, after?]

/-- **Writing and reading change nothing.** The items of a sheet that was read are read again
from its canonical text, if its rules begin as rules and its declarations close what they open;
so a text in canonical form stays as it is. -/
theorem parse_render_of_parse {s : Text} {sheet : Stylesheet}
    (h : Stylesheet.parse s = .ok sheet) (hbegins : ∀ item ∈ sheet, item.BeginsAsRule)
    (hcloses : ∀ item ∈ sheet, item.ClosesDeclarations) :
    Stylesheet.parse sheet.render = .ok sheet ∧
      ∀ t, (Stylesheet.parse s).map Stylesheet.render = .ok t →
        (Stylesheet.parse t).map Stylesheet.render = .ok t := by
  have hread : Stylesheet.parse sheet.render = .ok sheet := by
    refine parse_render fun item hitem => ?_
    obtain ⟨passage, hwf, hyields, -⟩ := exists_passage_of_mem h hitem
    cases item with
    | raw source => exact isReadable_raw hwf hyields
    | rule selectors declarations =>
        have hfirst := hbegins _ hitem
        have hclosed := hcloses _ hitem
        obtain ⟨rows, drows, rfl, rfl, hrows, hdrows, -⟩ := exists_rows_of_yields hwf hyields
        have hhead : ∀ row ∈ rows.head?, Written row ∧ startsWith (sourceOf row) ['@'] = false ∧
            startsWith (sourceOf row) ['/', '*'] = false := by
          intro row hrow
          refine ⟨hrows.written row (List.mem_of_head? hrow), hfirst (sourceOf row) ?_⟩
          rw [List.head?_map, Option.mem_def.1 hrow]
          rfl
        refine isReadable_rule hrows (fun row hrow e => ?_) (fun row hrow s e => ?_) hdrows
          (hclosed.stackAfter_eq_nil hdrows)
        · obtain ⟨hwritten, hat, -⟩ := hhead row hrow
          rw [(startsWith_of_head? hwritten).1 e] at hat
          cases hat
        · obtain ⟨hwritten, -, hcomment⟩ := hhead row hrow
          rw [(startsWith_of_head? hwritten).2 s e] at hcomment
          cases hcomment
  refine ⟨hread, fun t ht => ?_⟩
  rw [h] at ht
  obtain rfl : sheet.render = t := Except.ok.inj ht
  rw [hread]
  rfl

/-- A style sheet with a comment, a rule whose last selector leaves a bracket open, at-rules and
a rule that holds another one. -/
def banner : Text :=
  ["/* top; */a:is(b , c),,d[e\x7b top : 0 ;; src:url(\"a;b\") \x7d", "@import 'x;y';",
    "@media print\x7bp\x7bq:r\x7d\x7d ", "nav \x7b a \x7b\x7d \x7d\nb\x7b\x7d"].flatMap
      String.text

/-- The items of `banner`. -/
def bannerItems : Stylesheet :=
  [.raw "/* top; */".text,
    .rule ["a:is(b , c)".text, "d[e".text] ["top : 0".text, "src:url(\"a;b\")".text],
    .raw "@import 'x;y';".text, .raw "@media print\x7bp\x7bq:r\x7d\x7d".text,
    .raw "nav \x7b a \x7b\x7d \x7d".text, .rule ["b".text] []]

theorem parse_render_of_parse_banner :
    Stylesheet.parse banner = .ok bannerItems ∧ (∀ item ∈ bannerItems, item.BeginsAsRule) ∧
      (∀ item ∈ bannerItems, item.ClosesDeclarations) ∧
      Stylesheet.parse bannerItems.render = .ok bannerItems ∧
      ∀ t, (Stylesheet.parse banner).map Stylesheet.render = .ok t →
        (Stylesheet.parse t).map Stylesheet.render = .ok t := by
  have hparse : Stylesheet.parse banner = .ok bannerItems := by decide +kernel
  have hbegins : ∀ item ∈ bannerItems, item.BeginsAsRule := by decide +kernel
  have hcloses : ∀ item ∈ bannerItems, item.ClosesDeclarations := by decide +kernel
  exact ⟨hparse, hbegins, hcloses, parse_render_of_parse hparse hbegins hcloses⟩

end Stencil.Css
