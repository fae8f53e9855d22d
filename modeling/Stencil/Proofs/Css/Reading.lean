import Mathlib.Tactic.Common
import Stencil.Css.Parser
import Stencil.Proofs.Text.Search
import Stencil.Proofs.Work
import Stencil.Scope.Rules

set_option autoImplicit false

/-! # What a style sheet is read from

Reading a style sheet takes its text apart and throws nothing in: every selector, every
declaration and every text that is kept comes from the text that was read. So a sheet that
opens no tag still opens none when its rules are confined.
-/

namespace Stencil

namespace Css

open Text

/-! ## Pieces -/

/-- What is left of a string stands at the front of the text. -/
theorem exists_of_cutString? {quote : CodePoint} {s front : Text}
    (h : cutString? quote s = some front) :
    ∃ r, s = front ++ r := by
  induction s using cutString?.induct quote generalizing front with
  | case1 => simp [cutString?] at h
  | case2 c s ih =>
      simp only [cutString?, Option.map_eq_some_iff] at h
      obtain ⟨tail, htail, rfl⟩ := h
      obtain ⟨r, rfl⟩ := ih htail
      exact ⟨r, rfl⟩
  | case3 s hnot =>
      cases s with
      | nil => simp [cutString?] at h
      | cons c s => exact absurd rfl (hnot c s rfl)
  | case4 s hnot hne =>
      rw [cutString?] at h
      · simp only [hne, if_false, if_true, Option.some.injEq] at h
        exact ⟨s, by rw [← h]; rfl⟩
      · exact hnot
  | case5 c s hnot hne hq ih =>
      rw [cutString?] at h
      · simp only [hne, hq, if_false, Option.map_eq_some_iff] at h
        obtain ⟨tail, htail, rfl⟩ := h
        obtain ⟨r, rfl⟩ := ih htail
        exact ⟨r, rfl⟩
      · exact hnot

/-- The first piece of a text stands at its front, and is not empty. -/
theorem exists_firstPiece (c : CodePoint) (s : Text) :
    ∃ r, c :: s = (firstPiece c s).source ++ r ∧ 1 ≤ (firstPiece c s).size := by
  rw [firstPiece]
  split
  · split
    · rename_i front hfront
      obtain ⟨r, rfl⟩ := exists_of_cutString? hfront
      exact ⟨r, rfl, by simp [Piece.size, Piece.source]⟩
    · exact ⟨[], by simp [Piece.source], by simp [Piece.size, Piece.source]⟩
  · split
    · rename_i hc
      simp only [Bool.and_eq_true, decide_eq_true_eq, beq_iff_eq] at hc
      split
      · rename_i front rest hcut
        obtain ⟨rfl, hhead⟩ := hc
        cases s with
        | nil => simp at hhead
        | cons d s =>
            obtain rfl : d = '*' := by simpa using hhead
            have e : s = front ++ [char '*', char '/'] ++ rest := eq_of_cut? hcut
            exact ⟨rest, by simp [Piece.source, e], by simp [Piece.size, Piece.source]⟩
      · exact ⟨[], by simp [Piece.source], by simp [Piece.size, Piece.source]⟩
    · exact ⟨s, rfl, by simp [Piece.size, Piece.source]⟩

/-- The first piece of a text is read, and the rest is what its characters leave. -/
theorem exists_drop_firstPiece (c : CodePoint) (s : Text) :
    ∃ r, c :: s = (firstPiece c s).source ++ r ∧ s.drop ((firstPiece c s).size - 1) = r := by
  obtain ⟨r, e, hsize⟩ := exists_firstPiece c s
  have hdrop : (c :: s).drop (firstPiece c s).size = r := by rw [e, Piece.size, List.drop_left]
  obtain ⟨n, hn⟩ : ∃ n, (firstPiece c s).size = n + 1 := ⟨(firstPiece c s).size - 1, by omega⟩
  rw [hn, List.drop_succ_cons] at hdrop
  exact ⟨r, e, by rw [hn, Nat.add_sub_cancel, hdrop]⟩

theorem sourceOf_piecesFrom (k : Nat) (s : Text) : sourceOf (piecesFrom k s) = s.drop k := by
  induction s generalizing k with
  | nil => simp [piecesFrom, sourceOf]
  | cons c s ih =>
      cases k with
      | succ k => rw [piecesFrom, ih, List.drop_succ_cons]
      | zero =>
          obtain ⟨r, e, hr⟩ := exists_drop_firstPiece c s
          have hrest := ih ((firstPiece c s).size - 1)
          rw [hr, sourceOf] at hrest
          rw [piecesFrom, sourceOf, List.flatMap_cons, hrest, ← e, List.drop_zero]

/-- The pieces of a text are the text. -/
theorem sourceOf_pieces (s : Text) : sourceOf (pieces s) = s := sourceOf_piecesFrom 0 s

@[simp] theorem sourceOf_append (ps qs : List Piece) :
    sourceOf (ps ++ qs) = sourceOf ps ++ sourceOf qs := by
  simp [sourceOf]

@[simp] theorem sourceOf_cons (p : Piece) (ps : List Piece) :
    sourceOf (p :: ps) = p.source ++ sourceOf ps := rfl

/-! ## Scanning -/

/-- A scan ends at a stop. -/
theorem eq_of_scanTo {stops : Text} {index : Nat} {ps front rest : List Piece} {stop : CodePoint}
    (h : scanTo stops index ps = .ok (some (front, stop, rest))) :
    ps = front ++ .char stop :: rest ∧ stop ∈ stops := by
  induction ps generalizing index front with
  | nil => simp [scanTo] at h
  | cons p ps ih =>
      have hrec : ∀ index, (scanTo stops index ps).map
          (·.map fun x => (p :: x.1, x.2.1, x.2.2)) = .ok (some (front, stop, rest)) →
          p :: ps = front ++ .char stop :: rest ∧ stop ∈ stops := by
        intro index h
        obtain ⟨found, hfound, e⟩ := eq_of_map_ok h
        cases found with
        | none => simp at e
        | some found =>
            simp only [Option.map_some, Option.some.injEq, Prod.mk.injEq] at e
            obtain ⟨rfl, rfl, rfl⟩ := e
            obtain ⟨e, hstop⟩ := ih hfound
            exact ⟨by rw [List.cons_append, ← e], hstop⟩
      cases p with
      | char c =>
          rw [scanTo] at h
          split at h
          · rename_i hc
            simp only [Except.ok.injEq, Option.some.injEq, Prod.mk.injEq] at h
            obtain ⟨rfl, rfl, rfl⟩ := h
            exact ⟨rfl, by simpa using hc⟩
          · split at h
            · cases h
            · exact hrec _ h
      | quoted s => exact hrec _ h
      | comment s => exact hrec _ h
      | openString s => cases h
      | openComment s => cases h

theorem eq_of_blockFrom {first depth index : Nat} {ps inside rest : List Piece}
    (h : blockFrom first depth index ps = .ok (inside, rest)) :
    ps = inside ++ .char '\x7d' :: rest := by
  induction ps generalizing depth index inside with
  | nil => cases h
  | cons p ps ih =>
      have hrec : ∀ depth index, (blockFrom first depth index ps).map
          (fun x => (p :: x.1, x.2)) = .ok (inside, rest) →
          p :: ps = inside ++ .char '\x7d' :: rest := by
        intro depth index h
        obtain ⟨⟨inside', rest'⟩, hfound, e⟩ := eq_of_map_ok h
        simp only [Prod.mk.injEq] at e
        obtain ⟨rfl, rfl⟩ := e
        rw [List.cons_append, ← ih hfound]
      cases p with
      | char c =>
          simp only [blockFrom] at h
          split at h
          · rename_i hc
            subst hc
            cases depth with
            | zero =>
                simp only [Except.ok.injEq, Prod.mk.injEq] at h
                obtain ⟨rfl, rfl⟩ := h
                rfl
            | succ depth => exact hrec _ _ h
          · exact hrec _ _ h
      | quoted s => exact hrec _ _ h
      | comment s => exact hrec _ _ h
      | openString s => cases h
      | openComment s => cases h

/-! ## Parts -/

theorem mem_of_mem_partsFrom {sep : CodePoint} {stack : Text} {index : Nat} {ps : List Piece}
    {parts : List Text} (h : partsFrom sep stack index ps = .ok parts) {c : CodePoint} {part : Text}
    (hpart : part ∈ parts) (hc : c ∈ part) : c ∈ sourceOf ps := by
  induction ps generalizing stack index parts part with
  | nil =>
      simp only [partsFrom, Except.ok.injEq] at h
      subst h
      obtain rfl := List.mem_singleton.1 hpart
      cases hc
  | cons p ps ih =>
      have hextend : ∀ stack index, (partsFrom sep stack index ps).map (extendFirst p.source)
          = .ok parts → c ∈ sourceOf (p :: ps) := by
        intro stack index h
        obtain ⟨found, hfound, rfl⟩ := eq_of_map_ok h
        rw [sourceOf_cons, List.mem_append]
        cases found with
        | nil =>
            obtain rfl := List.mem_singleton.1 hpart
            exact Or.inl hc
        | cons first found =>
            rcases List.mem_cons.1 hpart with rfl | hpart
            · rcases List.mem_append.1 hc with hc | hc
              exacts [Or.inl hc, Or.inr (ih hfound (by simp) hc)]
            · exact Or.inr (ih hfound (List.mem_cons_of_mem _ hpart) hc)
      cases p with
      | char d =>
          rw [partsFrom] at h
          split at h
          · exact hextend _ _ h
          · split at h
            · exact hextend _ _ h
            · split at h
              · obtain ⟨found, hfound, rfl⟩ := eq_of_map_ok h
                rcases List.mem_cons.1 hpart with rfl | hpart
                · cases hc
                · exact List.mem_cons_of_mem _ (ih hfound hpart hc)
              · exact hextend _ _ h
      | quoted s => exact hextend _ _ h
      | comment s => exact hextend _ _ h
      | openString s => cases h
      | openComment s => cases h

theorem mem_of_mem_topLevelParts {sep : CodePoint} {s : Text} {parts : List Text}
    (h : topLevelParts sep s = .ok parts) {c : CodePoint} {part : Text} (hpart : part ∈ parts)
    (hc : c ∈ part) : c ∈ s := by
  obtain ⟨found, hfound, rfl⟩ := eq_of_map_ok h
  obtain ⟨raw, hraw, rfl⟩ := List.mem_map.1 (List.mem_filter.1 hpart).1
  rw [← sourceOf_pieces s]
  exact mem_of_mem_partsFrom hfound hraw (mem_of_mem_trim hc)

/-! ## What is read -/

/-- An at-rule that is read goes up to a semicolon, or up to a brace and over the block that it
opens. -/
theorem readAtRule_cases {index : Nat} {ps rest : List Piece} {item : Item}
    (h : readAtRule index ps = .ok (item, rest)) :
    (∃ front, scanTo ['\x7b', ';'] index ps = .ok (some (front, ';', rest)) ∧
        item = .raw (sourceOf front ++ [char ';'])) ∨
      ∃ front after first inside,
        scanTo ['\x7b', ';'] index ps = .ok (some (front, '\x7b', after)) ∧
        blockFrom first 0 (first + 1) after = .ok (inside, rest) ∧
        item = .raw (sourceOf front ++ [char '\x7b'] ++ sourceOf inside ++ [char '\x7d']) := by
  obtain ⟨found, hscan, h⟩ := eq_of_bind_ok h
  split at h
  · cases h
  · obtain ⟨rfl, rfl⟩ := Prod.mk.inj (Except.ok.inj h)
    exact .inl ⟨_, hscan, rfl⟩
  · rename_i front stop after hsemicolon
    obtain rfl : stop = '\x7b' := by
      rcases List.mem_cons.1 (eq_of_scanTo hscan).2 with rfl | hstop
      · rfl
      · exact (hsemicolon (List.mem_singleton.1 hstop)).elim
    obtain ⟨⟨inside, after'⟩, hblock, h⟩ := eq_of_bind_ok h
    obtain ⟨rfl, rfl⟩ := Prod.mk.inj (Except.ok.inj h)
    exact .inr ⟨_, _, _, _, hscan, hblock, rfl⟩

/-- A rule that is read goes up to a brace and over the block that it opens. It is kept as it is
written when the block holds a block, and is taken apart otherwise. -/
theorem readRule_cases {index : Nat} {ps rest : List Piece} {item : Item}
    (h : readRule index ps = .ok (item, rest)) :
    ∃ front after first inside selectors,
      scanTo ['\x7b'] index ps = .ok (some (front, '\x7b', after)) ∧
      blockFrom first 0 (first + 1) after = .ok (inside, rest) ∧
      topLevelParts ',' (sourceOf front) = .ok selectors ∧ selectors ≠ [] ∧
      ((.char '\x7b' ∈ sourceOf inside ∧
          item = .raw (sourceOf front ++ [char '\x7b'] ++ sourceOf inside ++ [char '\x7d'])) ∨
        .char '\x7b' ∉ sourceOf inside ∧ ∃ declarations,
          topLevelParts ';' (sourceOf inside) = .ok declarations ∧
          item = .rule selectors declarations) := by
  obtain ⟨found, hscan, h⟩ := eq_of_bind_ok h
  split at h
  · cases h
  · rename_i front stop after
    obtain rfl := List.mem_singleton.1 (eq_of_scanTo hscan).2
    obtain ⟨⟨inside, after'⟩, hblock, h⟩ := eq_of_bind_ok h
    obtain ⟨selectors, hselectors, h⟩ := eq_of_bind_ok h
    refine ⟨front, after, index + (sourceOf front).length, inside, selectors, hscan, ?_⟩
    split at h
    · cases h
    · rename_i hnonempty
      have hne : selectors ≠ [] := by simpa using hnonempty
      split at h
      · rename_i hbrace
        obtain ⟨rfl, rfl⟩ := Prod.mk.inj (Except.ok.inj h)
        exact ⟨hblock, hselectors, hne, .inl ⟨by simpa using hbrace, rfl⟩⟩
      · rename_i hbrace
        obtain ⟨declarations, hdeclarations, h⟩ := eq_of_bind_ok h
        obtain ⟨rfl, rfl⟩ := Prod.mk.inj (Except.ok.inj h)
        exact ⟨hblock, hselectors, hne,
          .inr ⟨by simpa using hbrace, declarations, hdeclarations, rfl⟩⟩

/-- What is read off the front of some pieces is a blank, a comment, an at-rule or a rule. -/
theorem readItem_cases {index : Nat} {p : Piece} {ps rest : List Piece} {item? : Option Item}
    (h : readItem index p ps = .ok (item?, rest)) :
    (∃ c, isBlank c = true ∧ p = .char c ∧ item? = none ∧ rest = ps) ∨
      (∃ s, p = .comment s ∧ item? = some (.raw s) ∧ rest = ps) ∨
      (∃ item, p = .char '@' ∧ readAtRule index (p :: ps) = .ok (item, rest) ∧
        item? = some item) ∨
      ∃ item, readRule index (p :: ps) = .ok (item, rest) ∧ item? = some item ∧
        (∀ c, p = .char c → isBlank c = false ∧ c ≠ '@') ∧ ∀ s, p ≠ .comment s := by
  -- Any piece but a blank, a comment and a character with a meaning of its own begins a rule.
  have hrule : (readRule index (p :: ps)).map (fun x => (some x.1, x.2)) = .ok (item?, rest) →
      ∃ item, readRule index (p :: ps) = .ok (item, rest) ∧ item? = some item := by
    intro h
    obtain ⟨⟨item, rest'⟩, hread, e⟩ := eq_of_map_ok h
    obtain ⟨rfl, rfl⟩ := Prod.mk.inj e
    exact ⟨item, hread, rfl⟩
  cases p with
  | char c =>
      simp only [readItem] at h
      split at h
      · rename_i hblank
        obtain ⟨rfl, rfl⟩ := Prod.mk.inj (Except.ok.inj h)
        exact .inl ⟨c, hblank, rfl, rfl, rfl⟩
      · rename_i hblank
        split at h
        · cases h
        · split at h
          · rename_i hat
            obtain ⟨⟨item, rest'⟩, hread, e⟩ := eq_of_map_ok h
            obtain ⟨rfl, rfl⟩ := Prod.mk.inj e
            exact .inr (.inr (.inl ⟨item, by rw [hat], hread, rfl⟩))
          · rename_i hat
            obtain ⟨item, hread, rfl⟩ := hrule h
            refine .inr (.inr (.inr ⟨item, hread, rfl, ?_, by simp⟩))
            rintro d ⟨⟩
            exact ⟨Bool.eq_false_iff.2 hblank, hat⟩
  | comment s =>
      obtain ⟨rfl, rfl⟩ := Prod.mk.inj (Except.ok.inj h)
      exact .inr (.inl ⟨s, rfl, rfl, rfl⟩)
  | openComment s => cases h
  | quoted s =>
      obtain ⟨item, hread, rfl⟩ := hrule h
      exact .inr (.inr (.inr ⟨item, hread, rfl, by simp, by simp⟩))
  | openString s =>
      obtain ⟨item, hread, rfl⟩ := hrule h
      exact .inr (.inr (.inr ⟨item, hread, rfl, by simp, by simp⟩))

/-! ## Items -/

/-- The texts of an item. -/
def Item.texts : Item → List Text
  | .rule selectors declarations => selectors ++ declarations
  | .raw source => [source]

/-- Whether the texts of an item open no tag. -/
def Item.IsUnmarked (item : Item) : Prop := ∀ t ∈ item.texts, .char '<' ∉ t

/-- A front and a block that stand in pieces without `<` have none. -/
theorem lt_not_mem_of_block {stops : Text} {index first index' : Nat} {stop : CodePoint}
    {ps front after inside rest : List Piece}
    (hscan : scanTo stops index ps = .ok (some (front, stop, after)))
    (hblock : blockFrom first 0 index' after = .ok (inside, rest)) (hps : .char '<' ∉ sourceOf ps) :
    .char '<' ∉ sourceOf front ∧ .char '<' ∉ sourceOf inside ∧ .char '<' ∉ sourceOf rest := by
  rw [(eq_of_scanTo hscan).1, eq_of_blockFrom hblock] at hps
  simp only [sourceOf_append, sourceOf_cons, List.mem_append, not_or] at hps
  exact ⟨hps.1, hps.2.2.1, hps.2.2.2.2⟩

/-- What is kept as it is written opens no tag when its front and its block open none. -/
theorem isUnmarked_raw {front inside : Text} (hfront : .char '<' ∉ front)
    (hinside : .char '<' ∉ inside) :
    (Item.raw (front ++ [char '\x7b'] ++ inside ++ [char '\x7d'])).IsUnmarked := by
  intro t ht
  obtain rfl := List.mem_singleton.1 ht
  simp only [List.mem_append, not_or]
  exact ⟨⟨⟨hfront, by decide⟩, hinside⟩, by decide⟩

theorem isUnmarked_of_readAtRule {index : Nat} {ps rest : List Piece} {item : Item}
    (h : readAtRule index ps = .ok (item, rest)) (hps : .char '<' ∉ sourceOf ps) :
    item.IsUnmarked ∧ .char '<' ∉ sourceOf rest := by
  rcases readAtRule_cases h with ⟨front, hscan, rfl⟩
    | ⟨front, after, first, inside, hscan, hblock, rfl⟩
  · rw [(eq_of_scanTo hscan).1] at hps
    simp only [sourceOf_append, sourceOf_cons, List.mem_append, not_or] at hps
    obtain ⟨hfront, -, hrest⟩ := hps
    exact ⟨by simpa [Item.IsUnmarked, Item.texts] using hfront, hrest⟩
  · obtain ⟨hfront, hinside, hrest⟩ := lt_not_mem_of_block hscan hblock hps
    exact ⟨isUnmarked_raw hfront hinside, hrest⟩

theorem isUnmarked_of_readRule {index : Nat} {ps rest : List Piece} {item : Item}
    (h : readRule index ps = .ok (item, rest)) (hps : .char '<' ∉ sourceOf ps) :
    item.IsUnmarked ∧ .char '<' ∉ sourceOf rest := by
  obtain ⟨front, after, first, inside, selectors, hscan, hblock, hselectors, -, hitem⟩ :=
    readRule_cases h
  obtain ⟨hfront, hinside, hrest⟩ := lt_not_mem_of_block hscan hblock hps
  refine ⟨?_, hrest⟩
  rcases hitem with ⟨-, rfl⟩ | ⟨-, declarations, hdeclarations, rfl⟩
  · exact isUnmarked_raw hfront hinside
  · intro t ht hlt
    rcases List.mem_append.1 ht with ht | ht
    exacts [hfront (mem_of_mem_topLevelParts hselectors ht hlt),
      hinside (mem_of_mem_topLevelParts hdeclarations ht hlt)]

theorem isUnmarked_of_readItem {index : Nat} {p : Piece} {ps rest : List Piece}
    {item? : Option Item} (h : readItem index p ps = .ok (item?, rest))
    (hps : .char '<' ∉ sourceOf (p :: ps)) :
    (∀ item ∈ item?, item.IsUnmarked) ∧ .char '<' ∉ sourceOf rest := by
  have hparts : .char '<' ∉ p.source ∧ .char '<' ∉ sourceOf ps := by
    rwa [sourceOf_cons, List.mem_append, not_or] at hps
  rcases readItem_cases h with ⟨c, -, rfl, rfl, rfl⟩ | ⟨s, rfl, rfl, rfl⟩
    | ⟨item, -, hread, rfl⟩ | ⟨item, hread, rfl, -⟩
  · exact ⟨by simp, hparts.2⟩
  · exact ⟨by simpa [Item.IsUnmarked, Item.texts, Piece.source] using hparts.1, hparts.2⟩
  · obtain ⟨hitem, hrest⟩ := isUnmarked_of_readAtRule hread hps
    exact ⟨by simpa using hitem, hrest⟩
  · obtain ⟨hitem, hrest⟩ := isUnmarked_of_readRule hread hps
    exact ⟨by simpa using hitem, hrest⟩

theorem isUnmarked_of_itemsFrom {index : Nat} {ps : List Piece} {sheet : Stylesheet}
    (h : itemsFrom index ps = .ok sheet) (hps : .char '<' ∉ sourceOf ps) :
    ∀ item ∈ sheet, item.IsUnmarked := by
  induction hlen : ps.length using Nat.strongRecOn generalizing index ps sheet with
  | ind n ih =>
    cases ps with
    | nil =>
        simp only [itemsFrom, Except.ok.injEq] at h
        simp [← h]
    | cons p ps =>
        rw [itemsFrom] at h
        split at h
        · cases h
        · rename_i item? after hread
          obtain ⟨hitem, hafter⟩ := isUnmarked_of_readItem hread hps
          have hitem : ∀ item ∈ item?.toList, item.IsUnmarked := by simpa using hitem
          split at h
          · rename_i hle
            obtain ⟨items, hitems, rfl⟩ := eq_of_map_ok h
            have hlt : after.length < n := by
              rw [← hlen, List.length_cons]
              omega
            exact List.forall_mem_append.2 ⟨hitem, ih _ hlt hitems hafter rfl⟩
          · simp only [Except.ok.injEq] at h
            exact h ▸ hitem

/-- A style sheet that opens no tag is read into items that open none. -/
theorem isUnmarked_of_parse {s : Text} {sheet : Stylesheet} (h : Stylesheet.parse s = .ok sheet)
    (hs : .char '<' ∉ s) : ∀ item ∈ sheet, item.IsUnmarked :=
  isUnmarked_of_itemsFrom h (by rwa [sourceOf_pieces])

/-! ## Writing -/

theorem Item.IsUnmarked.render {item : Item} (h : item.IsUnmarked) : .char '<' ∉ item.render := by
  cases item with
  | raw source => exact h source (by simp [Item.texts])
  | rule selectors declarations =>
      rw [Item.render]
      simp only [List.mem_append, not_or]
      refine ⟨⟨⟨fun hlt => ?_, by decide⟩, fun hlt => ?_⟩, by decide⟩
      · rcases mem_of_mem_join hlt with hlt | ⟨t, ht, hlt⟩
        exacts [absurd hlt (by decide), h t (by simp [Item.texts, ht]) hlt]
      · obtain ⟨t, ht, hlt⟩ := List.mem_flatMap.1 hlt
        simp only [List.mem_append] at hlt
        rcases hlt with (hlt | hlt) | hlt
        exacts [absurd hlt (by decide), h t (by simp [Item.texts, ht]) hlt, absurd hlt (by decide)]

theorem lt_not_mem_render {sheet : Stylesheet} (h : ∀ item ∈ sheet, item.IsUnmarked) :
    .char '<' ∉ sheet.render := by
  intro hlt
  rcases mem_of_mem_join hlt with hlt | ⟨t, ht, hlt⟩
  · exact absurd hlt (by decide)
  · obtain ⟨item, hitem, rfl⟩ := List.mem_map.1 ht
    exact (h item hitem).render hlt

end Css

/-! ## Confined rules -/

namespace ScopeKind

open Text

theorem cutPseudo_append (quote : Option CodePoint) (depth : Int) (s : Text) :
    (cutPseudo quote depth s).1 ++ (cutPseudo quote depth s).2 = s := by
  induction s generalizing quote depth with
  | nil => rfl
  | cons c s ih =>
      have hkeep : ∀ quote depth, c :: (cutPseudo quote depth s).1 ++ (cutPseudo quote depth s).2
          = c :: s := fun quote depth => congrArg (c :: ·) (ih quote depth)
      unfold cutPseudo
      cases quote with
      | some q => exact hkeep _ _
      | none =>
          dsimp only
          by_cases hquote : (decide (c = '"') || decide (c = '\'')) = true
          · rw [if_pos hquote]
            exact hkeep _ _
          · rw [if_neg hquote]
            split
            · exact hkeep _ _
            · split
              · exact hkeep _ _
              · split
                exacts [rfl, hkeep _ _]

theorem mem_of_mem_replaceFrom {c : CodePoint} {p : Text} {k : Nat} {s : Text}
    (h : c ∈ replaceFrom p [] k s) : c ∈ s := by
  induction s generalizing k with
  | nil => simp [replaceFrom] at h
  | cons d s ih =>
      cases k with
      | succ k => exact List.mem_cons_of_mem d (ih h)
      | zero =>
          rw [replaceFrom] at h
          split at h
          · exact List.mem_cons_of_mem d (ih h)
          · rcases List.mem_cons.1 h with rfl | h
            exacts [List.mem_cons_self, List.mem_cons_of_mem d (ih h)]

/-- Confining a selector adds nothing but the attribute of the marker. -/
theorem lt_not_mem_confineOrExempt {kind : ScopeKind} {marker selector : Text}
    (hmarker : .char '<' ∉ marker) (h : .char '<' ∉ selector) :
    .char '<' ∉ kind.confineOrExempt marker selector := by
  rw [confineOrExempt]
  split
  · exact fun hlt => h (mem_of_mem_replaceFrom (mem_of_mem_trim hlt))
  · cases kind with
    | loose =>
        have hattr : .char '<' ∉ Vocabulary.looseAttr marker := by
          intro hlt
          rcases List.mem_append.1 hlt with hlt | hlt
          exacts [absurd hlt (by decide), hmarker hlt]
        show .char '<' ∉ [char '['] ++ Vocabulary.looseAttr marker ++ [char ']', char ' ']
            ++ selector
        simp [hattr, h]
    | strict =>
        have hattr : .char '<' ∉ Vocabulary.strictAttr marker := by
          intro hlt
          rcases List.mem_append.1 hlt with hlt | hlt
          exacts [absurd hlt (by decide), hmarker hlt]
        rw [← cutPseudo_append none 0 selector, List.mem_append, not_or] at h
        obtain ⟨hfront, hpseudo⟩ := h
        show .char '<' ∉ (cutPseudo none 0 selector).1 ++ [char '[']
            ++ Vocabulary.strictAttr marker ++ [char ']']
          ++ (cutPseudo none 0 selector).2
        simp [hattr, hfront, hpseudo]

/-- A style sheet that opens no tag opens none when its rules are confined. -/
theorem lt_not_mem_confineSheet {kind : ScopeKind} {marker css out : Text}
    (h : kind.confineSheet marker css = .ok out) (hmarker : .char '<' ∉ marker)
    (hcss : .char '<' ∉ css) :
    .char '<' ∉ out := by
  obtain ⟨sheet, hsheet, rfl⟩ := eq_of_map_ok h
  refine Css.lt_not_mem_render fun item hitem => ?_
  obtain ⟨item', hitem', rfl⟩ := List.mem_map.1 hitem
  have hunmarked := Css.isUnmarked_of_parse hsheet hcss item' hitem'
  cases item' with
  | raw source => exact hunmarked
  | rule selectors declarations =>
      intro t ht
      rcases List.mem_append.1 ht with ht | ht
      · obtain ⟨selector, hselector, rfl⟩ := List.mem_map.1 ht
        exact lt_not_mem_confineOrExempt hmarker
          (hunmarked selector (by simp [Css.Item.texts, hselector]))
      · exact hunmarked t (by simp [Css.Item.texts, ht])

end ScopeKind
end Stencil
