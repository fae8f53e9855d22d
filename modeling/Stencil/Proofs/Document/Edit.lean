import Stencil.Html.Edit
import Stencil.Proofs.Document.Retag
import Stencil.Proofs.Table
import Stencil.Proofs.Text.Case

set_option autoImplicit false

/-! # Edits of the tags of a document

No element of a document closes itself, so writing out end tags leaves its source as it is.
Printing a start tag, and appending attributes to one, give the source of another start tag.
-/

namespace Stencil.Html

open Text

/-! ## Elements that close themselves -/

/-- A tag that does not end in `/>` does not close itself. -/
theorem cutSelfClosing?_eq_none {quote : Option CodePoint} {s front rest : Text}
    (h : cutTagEnd? quote s = some (front, rest)) (hfront : endsWith front [char '/'] = false) :
    cutSelfClosing? quote s = none := by
  induction s generalizing quote front with
  | nil => rfl
  | cons c s ih =>
      have hrec : ∀ quote front', cutTagEnd? quote s = some (front', rest) → front = c :: front' →
          cutSelfClosing? quote s = none := by
        intro quote front' h' e
        refine ih h' ?_
        rw [e] at hfront
        rcases List.eq_nil_or_concat front' with rfl | ⟨g, d, rfl⟩
        · rfl
        · rw [List.concat_eq_append] at hfront ⊢
          rw [← hfront, ← List.cons_append, endsWith_append_singleton, endsWith_append_singleton]
      cases quote with
      | some q =>
          rw [cutTagEnd?] at h
          rw [cutSelfClosing?]
          simp only [Option.map_eq_some_iff, Prod.mk.injEq] at h
          obtain ⟨⟨front', rest'⟩, h', rfl, rfl⟩ := h
          simp only [hrec _ _ h' rfl, Option.map_none]
      | none =>
          rw [cutTagEnd?] at h
          rw [cutSelfClosing?]
          simp only at h ⊢
          split at h
          · rename_i hc
            rw [if_pos hc]
          · rename_i hc
            simp only [Option.map_eq_some_iff, Prod.mk.injEq] at h
            obtain ⟨⟨front', rest'⟩, h', rfl, rfl⟩ := h
            rw [if_neg hc]
            split
            · -- a slash before `>` would be the last character of the tag
              rename_i hslash
              simp only [Bool.and_eq_true, decide_eq_true_eq, beq_iff_eq] at hslash
              obtain ⟨rfl, hhead⟩ := hslash
              cases s with
              | nil => simp at hhead
              | cons d s =>
                  obtain rfl : d = '>' := by simpa using hhead
                  rw [if_neg (by decide), cutTagEnd?] at h'
                  simp only [if_true, Option.some.injEq, Prod.mk.injEq] at h'
                  rw [← h'.1, show endsWith ['/'] [char '/'] = true from rfl] at hfront
                  exact absurd hfront (by decide)
            · simp only [hrec _ _ h' rfl, Option.map_none]

section

variable {t : OpenTag} (h : t.IsDelimited) (hopen : t.closesItself = false)

include h hopen

theorem endsWith_trailer : endsWith t.trailer [char '/'] = false := by
  rcases List.eq_nil_or_concat t.trailer with ht | ⟨g, d, ht⟩
  · rw [ht]
    rfl
  · obtain ⟨s, c, hs, hc⟩ := exists_inside_snoc h hopen
    have hd : d = c := by
      rw [OpenTag.inside, ht, List.concat_eq_append, ← List.append_assoc] at hs
      exact (List.append_inj' hs rfl).2 |> List.singleton_inj.1
    rw [ht, List.concat_eq_append, endsWith_append_singleton, hd]
    simpa using fun e => hc e.symm

theorem readSelfClosing?_source (r : Text) :
    readSelfClosing? (t.source ++ r) = none := by
  have hsource : t.source ++ r = char '<' :: (t.inside ++ char '>' :: r) := by simp [OpenTag.source]
  have hdrop : (t.inside ++ char '>' :: r).drop t.name.length = t.trailer ++ char '>' :: r := by
    rw [OpenTag.inside, List.append_assoc, List.drop_left]
  rw [hsource, readSelfClosing?, takeWhile_isMarkNameChar h, hdrop,
    cutSelfClosing?_eq_none (cutTagEnd?_trailer h r) (endsWith_trailer h hopen)]
  simp

end

theorem readSelfClosing?_of_ne {c : CodePoint} (s : Text) (h : c ≠ '<') :
    readSelfClosing? (c :: s) = none := by
  unfold readSelfClosing?
  split
  · rename_i e
    exact absurd (List.cons.inj e).1 h
  · rfl

theorem readSelfClosing?_endTagText (name r : Text) :
    readSelfClosing? (endTagText name ++ r) = none := by
  have hsource : endTagText name ++ r = char '<' :: char '/' :: (name ++ char '>' :: r) := by
    simp [endTagText]
  rw [hsource, readSelfClosing?]
  rfl

theorem expandFrom_of_not_mem {s : Text} (h : char '<' ∉ s) (r : Text) :
    expandFrom 0 (s ++ r) = s ++ expandFrom 0 r := by
  induction s with
  | nil => rfl
  | cons c s ih =>
      have hc : c ≠ '<' := fun e => h (e ▸ List.mem_cons_self)
      have hs : char '<' ∉ s := fun e => h (List.mem_cons_of_mem c e)
      rw [List.cons_append, expandFrom, readSelfClosing?_of_ne _ hc]
      simp only
      rw [ih hs, List.cons_append]

/-- A tag that does not close itself is passed over. -/
theorem expandFrom_tag {x : Text} (hx : char '<' ∉ x) (r : Text)
    (h : readSelfClosing? (char '<' :: x ++ r) = none) :
    expandFrom 0 (char '<' :: x ++ r) = char '<' :: x ++ expandFrom 0 r := by
  rw [List.cons_append] at h ⊢
  rw [expandFrom, h]
  simp only
  rw [expandFrom_of_not_mem hx, List.cons_append]

theorem expandFrom_source {t : OpenTag} (h : t.IsWritten) (hopen : t.closesItself = false) (r : Text) :
    expandFrom 0 (t.source ++ r) = t.source ++ expandFrom 0 r := by
  have hsource : t.source = char '<' :: (t.inside ++ [char '>']) := by simp [OpenTag.source]
  have hread := readSelfClosing?_source h.isDelimited hopen r
  rw [hsource] at hread ⊢
  exact expandFrom_tag (by simpa using h.lt_not_mem) r hread

theorem expandFrom_endTagText {name : Text} (h : isElementName name = true) (r : Text) :
    expandFrom 0 (endTagText name ++ r) = endTagText name ++ expandFrom 0 r := by
  have hsource : endTagText name = char '<' :: (char '/' :: name ++ [char '>']) := by
    simp [endTagText]
  have hread := readSelfClosing?_endTagText name r
  rw [hsource] at hread ⊢
  exact expandFrom_tag (by simpa using not_mem_of_isElementName h (by decide)) r hread

theorem Document.WellFormed.expandFrom_source {d : Document} (h : d.WellFormed) (r : Text) :
    expandFrom 0 (d.source ++ r) = d.source ++ expandFrom 0 r := by
  induction h generalizing r with
  | text hs => exact expandFrom_of_not_mem (not_mem_of_isRunning hs) r
  | element hb ht hn hc hr ihc ihr =>
      simp only [Document.source, List.append_assoc]
      rw [expandFrom_of_not_mem (not_mem_of_isRunning hb),
        Html.expandFrom_source ht.isWritten ht.closesItself_eq_false, ihc,
        expandFrom_endTagText ht.name, ihr]
  | raw hb ht hn hcss hr ihr =>
      simp only [Document.source, List.append_assoc]
      rw [expandFrom_of_not_mem (not_mem_of_isRunning hb),
        Html.expandFrom_source ht.isWritten ht.closesItself_eq_false,
        expandFrom_of_not_mem hcss, expandFrom_endTagText ht.name, ihr]

/-- Writing out end tags leaves a document as it is. -/
theorem Document.WellFormed.expandSelfClosing_source {d : Document} (h : d.WellFormed) :
    expandSelfClosing d.source = d.source := by
  have key := h.expandFrom_source []
  rw [List.append_nil] at key
  rw [expandSelfClosing, key, expandFrom, List.append_nil]

/-! ## Other start tags -/

/-- Whether a text may be the name of an attribute as it is written. -/
structure IsAttrWord (n : Text) : Prop where
  ne_nil : n ≠ []
  chars : ∀ c ∈ n, isQuotedAttrChar c = true

instance : DecidablePred IsAttrWord := fun n =>
  decidable_of_iff (n ≠ [] ∧ ∀ c ∈ n, isQuotedAttrChar c = true)
    ⟨fun ⟨h₁, h₂⟩ => ⟨h₁, h₂⟩, fun ⟨h₁, h₂⟩ => ⟨h₁, h₂⟩⟩

/-- Whether a text may be the name of an attribute as it is read. -/
structure IsAttrName (n : Text) : Prop extends IsAttrWord n where
  lower : lower n = n

theorem isQuotedAttrChar_of_isLetterLike {c : CodePoint} (h : IsLetterLike c) :
    isQuotedAttrChar c = true := by
  have hne : ∀ d : CodePoint, d.toNat ≤ 0x60 → c ≠ d := by
    rintro d hd rfl
    have := h.not_low
    omega
  simp [isQuotedAttrChar, StartTag.isAttrNameChar, h.not_blank, hne '/' (by decide),
    hne '=' (by decide), hne '>' (by decide), hne '<' (by decide), hne '"' (by decide),
    hne '\'' (by decide)]

theorem QuotedAttr.WellFormed.isAttrName {a : QuotedAttr} (h : a.WellFormed) :
    IsAttrName (lower a.name) where
  ne_nil := lower_ne_nil h.name_ne_nil
  chars := by
    intro c hc
    rcases (lowerFrom_settled [] a.name c hc).2 with hc | hc
    exacts [h.name c hc, isQuotedAttrChar_of_isLetterLike hc]
  lower := lower_lower a.name

/-- The characters of names of elements may name an attribute in any order. -/
theorem isAttrName_of_chars {n : Text} (hne : n ≠ [])
    (h : ∀ c ∈ n, isElementNameChar c = true) : IsAttrName n where
  ne_nil := hne
  chars := fun c hc =>
    of_isElementNameChar (fun c => isQuotedAttrChar c = true) (by decide) (h c hc)
  lower := lowerFrom_eq_self (fun c hc =>
    of_isElementNameChar (fun c => c ≠ 'Σ' ∧ lowerChar c = [c]) (by decide) (h c hc)) []

/-- What may name an element may name an attribute. -/
theorem isAttrName_of_isElementName {n : Text} (h : isElementName n = true) : IsAttrName n := by
  refine isAttrName_of_chars ?_ (isElementNameChar_of_mem h)
  rintro rfl
  simp [isElementName] at h

/-- Attributes that can be printed and read again. -/
structure IsAttrTable (attrs : Attributes) : Prop where
  name : ∀ x ∈ attrs, IsAttrName x.1
  value : ∀ x ∈ attrs, ∀ c ∈ x.2, isValueChar c = true
  nodup : attrs.names.Nodup

theorem IsAttrTable.erase {attrs : Attributes} (h : IsAttrTable attrs) (name : Text) :
    IsAttrTable (attrs.erase name) where
  name := fun x hx => h.name x (List.mem_filter.1 hx).1
  value := fun x hx => h.value x (List.mem_filter.1 hx).1
  nodup := by
    rw [Table.names_erase]
    exact h.nodup.filter _

theorem IsAttrTable.set {attrs : Attributes} (h : IsAttrTable attrs) {name value : Text}
    (hname : IsAttrName name) (hvalue : ∀ c ∈ value, isValueChar c = true) :
    IsAttrTable (Table.set name value attrs) where
  name := by
    intro x hx
    rcases Table.mem_of_mem_set hx with rfl | hx
    exacts [hname, h.name x hx]
  value := by
    intro x hx
    rcases Table.mem_of_mem_set hx with rfl | hx
    exacts [hvalue, h.value x hx]
  nodup := Table.nodup_names_set h.nodup name value

theorem IsAttrTable.cons {attrs : Attributes} (h : IsAttrTable attrs) {name value : Text}
    (hname : IsAttrName name) (hvalue : ∀ c ∈ value, isValueChar c = true)
    (hnew : name ∉ attrs.names) : IsAttrTable ((name, value) :: attrs) where
  name := List.forall_mem_cons.2 ⟨hname, h.name⟩
  value := List.forall_mem_cons.2 ⟨hvalue, h.value⟩
  nodup := List.nodup_cons.2 ⟨hnew, h.nodup⟩

theorem IsAttrTable.put {attrs : Attributes} (h : IsAttrTable attrs) {name value : Text}
    (hname : IsAttrName name) (hvalue : ∀ c ∈ value, isValueChar c = true) :
    IsAttrTable (Table.put name value attrs) := by
  rw [← Table.set_eq_put h.nodup]
  exact h.set hname hvalue

/-- The value of an attribute that can be printed, if there is one. -/
theorem IsAttrTable.getD {attrs : Attributes} (h : IsAttrTable attrs) (name : Text) :
    ∀ c ∈ (attrs.get? name).getD [], isValueChar c = true := by
  intro c hc
  cases hvalue : attrs.get? name with
  | none => simp [hvalue] at hc
  | some value =>
      rw [hvalue] at hc
      exact h.value (name, value) (Table.mem_of_get? hvalue) c hc

namespace OpenTag

/-- The start tag of a name and attributes, with the attributes one space apart. -/
def ofTable (name : Text) (attrs : Attributes) : OpenTag :=
  ⟨name, attrs.map fun x => ⟨[' '], x.1, x.2⟩, []⟩

/-- A start tag with more attributes that have no value. -/
def withAttrs (t : OpenTag) (names : List Text) : OpenTag :=
  if names.isEmpty then t else ⟨t.name, t.attrs ++ names.map fun n => ⟨[' '], n, []⟩, []⟩

@[simp] theorem name_ofTable (name : Text) (attrs : Attributes) : (ofTable name attrs).name = name :=
  rfl

@[simp] theorem name_withAttrs (t : OpenTag) (names : List Text) :
    (t.withAttrs names).name = t.name := by
  rw [withAttrs]
  split <;> rfl

/-- Every attribute of a start tag is one that is written in it. -/
theorem exists_of_mem_table {t : OpenTag} {x : Text × Text} (hx : x ∈ t.table) :
    ∃ a ∈ t.attrs, x = (lower a.name, a.value) := by
  obtain ⟨a, ha, rfl⟩ := List.mem_map.1 (Table.mem_of_mem_ofPairs hx)
  exact ⟨a, ha, rfl⟩

theorem WellFormed.isAttrTable {t : OpenTag} (h : t.WellFormed) : IsAttrTable t.table where
  name := by
    intro x hx
    obtain ⟨a, ha, rfl⟩ := exists_of_mem_table hx
    exact (h.attrs a ha).isAttrName
  value := by
    intro x hx
    obtain ⟨a, ha, rfl⟩ := exists_of_mem_table hx
    exact (h.attrs a ha).value
  nodup := Table.nodup_names_ofPairs t.pairs

theorem table_ofTable (name : Text) {attrs : Attributes} (h : IsAttrTable attrs) :
    (ofTable name attrs).table = attrs := by
  have hpairs : (ofTable name attrs).pairs = attrs := by
    have key : attrs.map (fun x => (lower x.1, x.2)) = attrs := by
      conv_rhs => rw [← List.map_id attrs]
      refine List.map_congr_left fun x hx => ?_
      rw [(h.name x hx).lower]
      rfl
    rw [pairs, ofTable, List.map_map]
    exact key
  rw [table, hpairs, Table.ofPairs_eq_self h.nodup]

theorem WellFormed.ofTable {t : OpenTag} (h : t.WellFormed) {attrs : Attributes}
    (hattrs : IsAttrTable attrs) : (ofTable t.name attrs).WellFormed where
  name := h.name
  not_void := h.not_void
  attrs := by
    intro a ha
    obtain ⟨x, hx, rfl⟩ := List.mem_map.1 ha
    have hn := hattrs.name x hx
    exact ⟨by simp, by simp [IsGap, isIndent], hn.ne_nil, hn.chars, hattrs.value x hx⟩
  tail := by simp [OpenTag.ofTable, IsGap]

theorem WellFormed.withAttrs {t : OpenTag} (h : t.WellFormed) {names : List Text}
    (hnames : ∀ n ∈ names, IsAttrWord n) : (t.withAttrs names).WellFormed := by
  rw [OpenTag.withAttrs]
  split
  · exact h
  · refine ⟨h.name, h.not_void, ?_, by simp [IsGap]⟩
    intro a ha
    rcases List.mem_append.1 ha with ha | ha
    · exact h.attrs a ha
    · obtain ⟨n, hn, rfl⟩ := List.mem_map.1 ha
      have hw := hnames n hn
      exact ⟨by simp, by simp [IsGap, isIndent], hw.ne_nil, hw.chars, by simp⟩

theorem pairs_withAttrs {t : OpenTag} {names : List Text} (hnames : ∀ n ∈ names, IsAttrName n) :
    (t.withAttrs names).pairs = t.pairs ++ names.map fun n => (n, []) := by
  rw [withAttrs]
  split
  · rename_i hnil
    rw [List.isEmpty_iff.1 hnil]
    simp
  · rw [pairs, List.map_append, List.map_map]
    refine congrArg _ (List.map_congr_left fun n hn => ?_)
    simp [(hnames n hn).lower]

/-- A start tag with more attributes has those and its own. -/
theorem has_withAttrs {t : OpenTag} {names : List Text} (hnames : ∀ n ∈ names, IsAttrName n)
    (name : Text) :
    (t.withAttrs names).table.has name = true ↔ t.table.has name = true ∨ name ∈ names := by
  rw [Table.has_iff, Table.has_iff, table, table, Table.mem_names_ofPairs,
    Table.mem_names_ofPairs, pairs_withAttrs hnames]
  simp [Function.comp_def]

/-- More attributes leave the value of another one as it is. -/
theorem get?_withAttrs {t : OpenTag} {names : List Text} (hnames : ∀ n ∈ names, IsAttrName n)
    {name : Text} (hname : name ∉ names) :
    Table.get? (t.withAttrs names).table name = Table.get? t.table name := by
  rw [table, pairs_withAttrs hnames]
  refine Table.get?_ofPairs_append fun q hq e => hname ?_
  obtain ⟨n, hn, rfl⟩ := List.mem_map.1 hq
  exact e ▸ hn

theorem has_withAttrs_of_not_mem {t : OpenTag} {names : List Text}
    (hnames : ∀ n ∈ names, IsAttrName n) {name : Text} (hname : name ∉ names) :
    (t.withAttrs names).table.has name = t.table.has name := by
  rw [Table.has, get?_withAttrs hnames hname]
  rfl

end OpenTag

theorem escapeValue_eq_self {s : Text} (h : ∀ c ∈ s, isValueChar c = true) : escapeValue s = s := by
  induction s with
  | nil => rfl
  | cons c s ih =>
      have hc := h c (by simp)
      simp only [isValueChar, Bool.and_eq_true, bne_iff_ne] at hc
      rw [escapeValue, List.flatMap_cons, if_neg hc.1.2, if_neg hc.2]
      show c :: escapeValue s = _
      rw [ih fun x hx => h x (by simp [hx])]

/-- Printing a name and attributes gives the source of their start tag. -/
theorem startTagText_eq_source (name : Text) {attrs : Attributes} (h : IsAttrTable attrs) :
    startTagText name attrs = (OpenTag.ofTable name attrs).source := by
  have hattrs : attrs.flatMap attrText
      = (attrs.map fun x => (⟨[' '], x.1, x.2⟩ : QuotedAttr)).flatMap QuotedAttr.source := by
    rw [List.flatMap_map, List.flatMap_def, List.flatMap_def]
    refine congrArg List.flatten (List.map_congr_left fun x hx => ?_)
    rw [attrText, escapeValue_eq_self (h.value x hx)]
    rfl
  rw [startTagText, hattrs]
  simp [OpenTag.source, OpenTag.inside, OpenTag.trailer, OpenTag.ofTable]

theorem trimRight_append_tail {s g : Text} (hg : IsGap g) : trimRight (s ++ g) = trimRight s := by
  have hrev : ∀ c ∈ g.reverse, isBlank c = true := fun c hc =>
    isBlank_of_isIndent (hg c (List.mem_reverse.1 hc))
  rw [trimRight, dropEndWhile, List.reverse_append, List.dropWhile_append_of_pos hrev]
  rfl

theorem trimRight_snoc (s : Text) {c : CodePoint} (h : isBlank c = false) :
    trimRight (s ++ [c]) = s ++ [c] := by
  rw [trimRight, dropEndWhile, List.reverse_append, List.reverse_singleton, List.singleton_append,
    List.dropWhile_cons_of_neg (by simp [h])]
  simp

namespace OpenTag

/-- A start tag with more attributes that have no value; a slash at the end stays, one space
behind them. -/
def extend (t : OpenTag) (names : List Text) : OpenTag :=
  if names.isEmpty then t
  else ⟨t.name, t.attrs ++ names.map fun n => ⟨[' '], n, []⟩, if t.closesItself then [' ', '/'] else []⟩

theorem WellFormed.extend {t : OpenTag} (h : t.WellFormed) (names : List Text) :
    t.extend names = t.withAttrs names := by
  simp [OpenTag.extend, OpenTag.withAttrs, h.closesItself_eq_false]

@[simp] theorem name_extend (t : OpenTag) (names : List Text) : (t.extend names).name = t.name := by
  rw [extend]
  split <;> rfl

theorem closesItself_extend (t : OpenTag) (names : List Text) :
    (t.extend names).closesItself = t.closesItself := by
  rw [extend]
  split
  · rfl
  · cases h : t.closesItself <;> rfl

theorem table_extend (t : OpenTag) (names : List Text) :
    (t.extend names).table = (t.withAttrs names).table := by
  have hattrs : (t.extend names).attrs = (t.withAttrs names).attrs := by
    rw [extend, withAttrs]
    split <;> rfl
  rw [table, table, pairs, pairs, hattrs]

theorem has_extend {t : OpenTag} {names : List Text} (hnames : ∀ n ∈ names, IsAttrName n)
    (name : Text) :
    (t.extend names).table.has name = true ↔ t.table.has name = true ∨ name ∈ names := by
  rw [table_extend]
  exact has_withAttrs hnames name

theorem has_extend_of_not_mem {t : OpenTag} {names : List Text}
    (hnames : ∀ n ∈ names, IsAttrName n) {name : Text} (hname : name ∉ names) :
    (t.extend names).table.has name = t.table.has name := by
  rw [table_extend]
  exact has_withAttrs_of_not_mem hnames hname

theorem IsWritten.extend {t : OpenTag} (h : t.IsWritten) {names : List Text}
    (hnames : ∀ n ∈ names, IsAttrName n) : (t.extend names).IsWritten := by
  rw [OpenTag.extend]
  split
  · exact h
  · refine ⟨h.name, fun a ha => ?_, ?_⟩
    · rcases List.mem_append.1 ha with ha | ha
      · exact h.attrs a ha
      · obtain ⟨n, hn, rfl⟩ := List.mem_map.1 ha
        have hw := hnames n hn
        exact ⟨by simp, by simp [IsGap, isIndent], hw.ne_nil, hw.chars, by simp⟩
    · show IsTail (if t.closesItself then [' ', '/'] else [])
      cases t.closesItself <;> decide

end OpenTag

/-- Trimming the front of a start tag takes the gap behind its attributes away. -/
theorem trimRight_front {t : OpenTag} (h : t.IsWritten) {g : Text} (hg : IsGap g) :
    trimRight (char '<' :: (t.name ++ t.attrs.flatMap QuotedAttr.source) ++ g)
      = char '<' :: (t.name ++ t.attrs.flatMap QuotedAttr.source) := by
  rw [trimRight_append_tail hg]
  rcases flatMap_source_eq t.attrs with ha | ⟨s, ha⟩
  · obtain ⟨c, n, hn, -⟩ := exists_cons_of_isElementName h.name
    have hlast : t.name = t.name.dropLast ++ [t.name.getLast (by simp [hn])] :=
      (List.dropLast_concat_getLast _).symm
    have hblank := not_isBlank_of_mem h.name (t.name.getLast (by simp [hn]))
      (List.getLast_mem _)
    rw [ha, List.append_nil, hlast, ← List.cons_append]
    exact trimRight_snoc _ hblank
  · rw [ha, ← List.append_assoc, ← List.cons_append]
    exact trimRight_snoc _ (by decide)

/-- Appending attributes gives the source of the start tag that has them. -/
theorem OpenTag.IsWritten.appendAttributes_source {t : OpenTag} (h : t.IsWritten)
    (names : List Text) : appendAttributes t.source names = (t.extend names).source := by
  rw [appendAttributes, OpenTag.extend]
  split
  · rfl
  · obtain ⟨g, hg, htail⟩ := h.exists_gap
    have hadded : (names.flatMap fun name => attrText (name, []))
        = (names.map fun n => (⟨[' '], n, []⟩ : QuotedAttr)).flatMap QuotedAttr.source := by
      rw [List.flatMap_map]
      rfl
    have hsource : t.source = (char '<' :: (t.name ++ t.attrs.flatMap QuotedAttr.source) ++ g)
        ++ ((if t.closesItself then [char '/'] else []) ++ [char '>']) := by
      simp [OpenTag.source, OpenTag.inside, OpenTag.trailer, htail]
    rw [endsWith_source h.isDelimited, hadded]
    cases hclose : t.closesItself with
    | true =>
        have htake : t.source.take (t.source.length - 2)
            = char '<' :: (t.name ++ t.attrs.flatMap QuotedAttr.source) ++ g := by
          rw [hsource, hclose, List.length_append, if_pos rfl]
          exact List.take_left
        rw [if_pos rfl, if_pos rfl, htake, trimRight_front h hg]
        simp [OpenTag.source, OpenTag.inside, OpenTag.trailer]
    | false =>
        have htake : t.source.take (t.source.length - 1)
            = char '<' :: (t.name ++ t.attrs.flatMap QuotedAttr.source) ++ g := by
          rw [hsource, hclose, List.length_append, if_neg (by decide)]
          exact List.take_left
        rw [if_neg (by decide), if_neg (by decide), htake, trimRight_front h hg]
        simp [OpenTag.source, OpenTag.inside, OpenTag.trailer]

theorem OpenTag.WellFormed.appendAttributes_source {t : OpenTag} (h : t.WellFormed)
    (names : List Text) : appendAttributes t.source names = (t.withAttrs names).source := by
  rw [h.isWritten.appendAttributes_source, h.extend]

end Stencil.Html
