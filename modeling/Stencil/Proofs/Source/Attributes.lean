import Stencil.Proofs.Source.Names
import Stencil.Proofs.Document.Tag

set_option autoImplicit false

/-! # Attributes in front of another end

The attributes of a start tag are read one by one, each up to where it ends, and the end of the tag
has a say in that: a value without quotes runs up to it, a value that is missing is looked for in
it, and a quote that is open is closed there or nowhere. Where none of this happens
(`readAttr?_append`), attributes are read alike when other text takes the place of the end
(`readAttrs_append`).
-/

namespace Stencil

namespace Text

/-- Whether a text does not end in a blank. -/
def IsTrimmed (s : Text) : Prop := ∀ c, s.getLast? = some c → isBlank c = false

variable {s t : Text}

theorem IsTrimmed.of_suffix (h : IsTrimmed s) (ht : t <:+ s) : IsTrimmed t := by
  intro c hc
  obtain ⟨front, rfl⟩ := ht
  apply h
  rw [List.getLast?_append, hc, Option.some_or]

theorem IsTrimmed.exists_not_blank (h : IsTrimmed s) (hne : s ≠ []) :
    ∃ c ∈ s, isBlank c = false := by
  obtain ⟨c, hc⟩ := Option.isSome_iff_exists.1 (List.getLast?_isSome.2 hne)
  exact ⟨c, List.mem_of_getLast? hc, h c hc⟩

theorem isTrimmed_trimRight (s : Text) : IsTrimmed (trimRight s) := by
  intro c hc
  rw [trimRight, dropEndWhile, List.getLast?_reverse] at hc
  have hstop := List.head?_dropWhile_not isBlank s.reverse
  rw [hc] at hstop
  simpa using hstop

/-- Blanks are trimmed off a text as if nothing stood behind it. -/
theorem IsTrimmed.trimLeft_append (h : IsTrimmed s) (hne : s ≠ []) (r : Text) :
    trimLeft (s ++ r) = trimLeft s ++ r ∧ trimLeft s ≠ [] := by
  have hstop := h.exists_not_blank hne
  refine ⟨(takeWhile_append_of_stops hstop r).2, ?_⟩
  rw [trimLeft, ne_eq, List.dropWhile_eq_nil_iff]
  intro hall
  obtain ⟨c, hmem, hc⟩ := hstop
  rw [hall c hmem] at hc
  cases hc

end Text

namespace Html.StartTag

open Text

/-! ## The end of a tag -/

/-- The end of a start tag as it is written: blanks, and the mark that closes it. -/
structure IsEnding (mark t : Text) : Prop where
  closes : mark = [char '>'] ∨ mark = [char '/', char '>']
  blanks : ∃ g : Text, (∀ c ∈ g, isBlank c = true) ∧ t = g ++ mark

/-- Text that can take the place of the end: a space is in front, and what stands behind it is no
value and closes none between apostrophes. -/
structure IsAddition (u : Text) : Prop where
  space : ∃ r, u = char ' ' :: r
  value : (trimLeft u).head? ≠ some (char '=')
  quote : char '\'' ∉ u

variable {mark t u w : Text}

theorem IsEnding.trimLeft_eq (h : IsEnding mark t) : trimLeft t = mark := by
  obtain ⟨g, hg, rfl⟩ := h.blanks
  rw [trimLeft, List.dropWhile_append_of_pos hg]
  rcases h.closes with rfl | rfl <;> decide

theorem IsEnding.length_le (h : IsEnding mark t) : mark.length ≤ t.length := by
  obtain ⟨g, -, rfl⟩ := h.blanks
  rw [List.length_append]
  omega

/-- The end of a tag begins with a character that ends names. -/
theorem IsEnding.exists_cons (h : IsEnding mark t) :
    ∃ c r, t = c :: r ∧ (isBlank c = true ∨ c = '>' ∨ t = [char '/', char '>'] ∧ mark = t) := by
  obtain ⟨g, hg, rfl⟩ := h.blanks
  cases g with
  | cons c g => exact ⟨c, g ++ mark, rfl, .inl (hg c List.mem_cons_self)⟩
  | nil =>
      rcases h.closes with rfl | rfl
      · exact ⟨'>', [], rfl, .inr (.inl rfl)⟩
      · exact ⟨'/', ['>'], rfl, .inr (.inr ⟨rfl, rfl⟩)⟩

theorem IsEnding.not_mem {q : CodePoint} (h : IsEnding mark t) (hq : isQuote q = true) : q ∉ t := by
  obtain ⟨g, hg, rfl⟩ := h.blanks
  rw [isQuote, Bool.or_eq_true, beq_iff_eq, beq_iff_eq] at hq
  intro hmem
  rcases List.mem_append.1 hmem with hmem | hmem
  · have hblank := hg q hmem
    rcases hq with rfl | rfl <;> exact absurd hblank (by decide)
  · rcases h.closes with rfl | rfl <;> rcases hq with rfl | rfl <;> exact absurd hmem (by decide)

/-- Whether names, and the equals signs behind them, stop at the front of a text. -/
def Stops (r : Text) : Prop :=
  ∃ c s, r = c :: s ∧ isAttrNameChar c = false ∧ (c == '=') = false

theorem Stops.name_append {r : Text} (h : Stops r) (w : Text) :
    (w ++ r).takeWhile isAttrNameChar = w.takeWhile isAttrNameChar ∧
      (w ++ r).dropWhile isAttrNameChar = w.dropWhile isAttrNameChar ++ r := by
  obtain ⟨c, s, rfl, hc, -⟩ := h
  exact takeWhile_append_stop hc w s

theorem Stops.equals_append {r : Text} (h : Stops r) (w : Text) :
    (w ++ r).dropWhile (· == char '=') = w.dropWhile (· == char '=') ++ r := by
  obtain ⟨c, s, rfl, -, hc⟩ := h
  exact (takeWhile_append_stop (p := (· == '=')) hc w s).2

theorem IsEnding.stops (h : IsEnding mark t) : Stops t := by
  obtain ⟨c, r, ht, hc⟩ := h.exists_cons
  refine ⟨c, r, ht, ?_⟩
  rcases hc with hblank | rfl | ⟨hslash, -⟩
  · refine ⟨by simp [isAttrNameChar, hblank], ?_⟩
    rw [beq_eq_false_iff_ne]
    rintro rfl
    exact absurd hblank (by decide)
  · decide
  · rw [hslash] at ht
    rw [← (List.cons.inj ht).1]
    decide

theorem IsAddition.stops (h : IsAddition u) : Stops u := by
  obtain ⟨r, hr⟩ := h.space
  exact ⟨' ', r, hr, by decide, by decide⟩

/-- A value without quotes stops at the end of a tag, unless it takes the slash of the end. -/
theorem IsEnding.bare_append (h : IsEnding mark t)
    (hrest : mark.length ≤ ((w ++ t).dropWhile isBareChar).length) :
    (w ++ t).takeWhile isBareChar = w.takeWhile isBareChar ∧
      (w ++ t).dropWhile isBareChar = w.dropWhile isBareChar ++ t := by
  by_cases hstop : ∃ c ∈ w, isBareChar c = false
  · exact takeWhile_append_of_stops hstop t
  · have hall : ∀ c ∈ w, isBareChar c = true := fun c hc => by simpa using fun e => hstop ⟨c, hc, e⟩
    obtain ⟨c, r, ht, hc⟩ := h.exists_cons
    rcases hc with hblank | rfl | ⟨hslash, hmark⟩
    · rw [ht]
      exact takeWhile_append_stop (by simp [isBareChar, hblank]) w r
    · rw [ht]
      exact takeWhile_append_stop (by decide) w r
    · rw [hmark, List.dropWhile_append_of_pos hall, hslash] at hrest
      exact absurd hrest (by decide)

theorem IsAddition.bare_append (h : IsAddition u) :
    (w ++ u).takeWhile isBareChar = w.takeWhile isBareChar ∧
      (w ++ u).dropWhile isBareChar = w.dropWhile isBareChar ++ u := by
  obtain ⟨r, rfl⟩ := h.space
  exact takeWhile_append_stop (by decide) w r

/-! ## One attribute -/

/-- An outcome of reading with more text behind what is left. -/
def withRest {α : Type} (r : Text) (a : α × Bool × Text) : α × Bool × Text :=
  (a.1, a.2.1, a.2.2 ++ r)

/-- A text is read alike in front of two others: with one outcome, which leaves an end of the text
and what stands behind it. -/
def ReadsAlike (read : Text → Option (Text × Bool × Text)) (w t u : Text) : Prop :=
  ∃ o : Option (Text × Bool × Text), (∀ a, o = some a → a.2.2 <:+ w) ∧
    read (w ++ t) = o.map (withRest t) ∧ read (w ++ u) = o.map (withRest u)

/-- A text is read alike if what it is read off is. -/
theorem ReadsAlike.of_suffix {read read' : Text → Option (Text × Bool × Text)} {v : Text}
    (h : ReadsAlike read v t u) (hv : v <:+ w) (ht : read' (w ++ t) = read (v ++ t))
    (hu : read' (w ++ u) = read (v ++ u)) : ReadsAlike read' w t u := by
  obtain ⟨o, ho, hot, hou⟩ := h
  exact ⟨o, fun a ha => (ho a ha).trans hv, ht.trans hot, hu.trans hou⟩

/-- The value without quotes at the front of a text, with what was read of it before. -/
def bareValue (front s : Text) : Option (Text × Bool × Text) :=
  some (front ++ s.takeWhile isBareChar, false, s.dropWhile isBareChar)

theorem readsAlike_bareValue (ht : IsEnding mark t) (hu : IsAddition u) (front : Text)
    (hrest : ∀ a, bareValue front (w ++ t) = some a → mark.length ≤ a.2.2.length) :
    ReadsAlike (bareValue front) w t u := by
  obtain ⟨htaket, hdropt⟩ := ht.bare_append (hrest _ rfl)
  obtain ⟨htakeu, hdropu⟩ := hu.bare_append (w := w)
  refine ⟨bareValue front w, ?_, ?_, ?_⟩
  · rintro a ⟨rfl⟩
    exact List.dropWhile_suffix _
  · unfold bareValue
    rw [htaket, hdropt, Option.map_some, withRest]
  · unfold bareValue
    rw [htakeu, hdropu, Option.map_some, withRest]

section

variable {spaced s value rest : Text} {c : CodePoint} (doubled : Bool)

theorem readValueAfter_of_bare (h : trimLeft spaced = c :: s) (hc : isQuote c = false) :
    readValueAfter doubled spaced = bareValue [] (c :: s) := by
  simp only [readValueAfter, h, hc, Bool.false_eq_true, if_false, bareValue, List.nil_append]

theorem readValueAfter_of_closed (h : trimLeft spaced = c :: (value ++ c :: rest))
    (hc : isQuote c = true) (hvalue : c ∉ value) :
    readValueAfter doubled spaced = some (value, true, rest) := by
  simp only [readValueAfter, h, hc, if_true, cut?_char hvalue]

/-- A quote that is open is no value behind a blank, or it is the front of a value without quotes
that takes the equals sign before it, or there is no value. -/
theorem readValueAfter_of_open (h : trimLeft spaced = c :: s) (hc : isQuote c = true)
    (hopen : c ∉ s) :
    readValueAfter doubled spaced =
      if (c :: s).length < spaced.length then some ([], false, spaced)
      else if doubled then bareValue ['='] (c :: s) else none := by
  have hcut : cut? [c] s = none := by
    rw [cut?_eq_none_iff]
    rintro a b rfl
    exact hopen (by simp)
  simp only [readValueAfter, h, hc, if_true, hcut, bareValue, List.singleton_append]

end

/-- A value is read alike in front of the end of a tag and in front of other text, if it is there,
its double quote is closed, and it leaves the end alone. -/
theorem readValueAfter_append (ht : IsEnding mark t) (hu : IsAddition u) (hw : IsTrimmed w)
    (hne : w ≠ []) (doubled : Bool) (hquote : ∀ s, trimLeft (w ++ t) = char '"' :: s → char '"' ∈ s)
    (hrest : ∀ a, readValueAfter doubled (w ++ t) = some a → mark.length ≤ a.2.2.length) :
    ReadsAlike (readValueAfter doubled) w t u := by
  obtain ⟨c, s, hs⟩ := List.exists_cons_of_ne_nil (hw.trimLeft_append hne t).2
  have hsuffix : c :: s <:+ w := hs ▸ List.dropWhile_suffix _
  have htrim : ∀ r, trimLeft (w ++ r) = c :: (s ++ r) := by
    intro r
    rw [(hw.trimLeft_append hne r).1, hs, List.cons_append]
  -- The value without quotes is all that is left, or an equals sign before it is a part of it.
  have hbare : ∀ front : Text,
      readValueAfter doubled (w ++ t) = bareValue front (c :: (s ++ t)) →
      readValueAfter doubled (w ++ u) = bareValue front (c :: (s ++ u)) →
      ReadsAlike (readValueAfter doubled) w t u := by
    intro front hreadt hreadu
    have halike : ReadsAlike (bareValue front) (c :: s) t u :=
      readsAlike_bareValue ht hu front fun a ha => hrest a (hreadt.trans ha)
    exact halike.of_suffix hsuffix hreadt hreadu
  cases hq : isQuote c with
  | false =>
      exact hbare [] (readValueAfter_of_bare doubled (htrim t) hq)
        (readValueAfter_of_bare doubled (htrim u) hq)
  | true =>
    by_cases hmem : c ∈ s
    · obtain ⟨value, rest, rfl, hvalue⟩ := List.eq_append_cons_of_mem hmem
      have hread : ∀ r, readValueAfter doubled (w ++ r) = some (value, true, rest ++ r) := by
        intro r
        refine readValueAfter_of_closed doubled ?_ hq hvalue
        rw [htrim r, List.append_assoc, List.cons_append]
      refine ⟨some (value, true, rest), ?_, hread t, hread u⟩
      rintro a ⟨rfl⟩
      exact ((List.suffix_cons c rest).trans (List.suffix_append (c :: value) _)).trans hsuffix
    · -- An apostrophe that is open stays open; a double quote is not left open.
      have hapostrophe : c = '\'' := by
        rw [isQuote, Bool.or_eq_true, beq_iff_eq, beq_iff_eq] at hq
        refine hq.resolve_right ?_
        rintro rfl
        rcases List.mem_append.1 (hquote _ (htrim t)) with h | h
        · exact hmem h
        · exact ht.not_mem (by decide) h
      have hopent := readValueAfter_of_open doubled (htrim t) hq fun h =>
        (List.mem_append.1 h).elim hmem (ht.not_mem hq)
      have hopenu := readValueAfter_of_open doubled (htrim u) hq fun h =>
        (List.mem_append.1 h).elim hmem (hapostrophe ▸ hu.quote)
      have hspaced : ∀ r : Text,
          (c :: (s ++ r)).length < (w ++ r).length ↔ (c :: s).length < w.length := by
        intro r
        simp only [List.length_cons, List.length_append]
        omega
      by_cases hblank : (c :: s).length < w.length
      · rw [if_pos ((hspaced t).2 hblank)] at hopent
        rw [if_pos ((hspaced u).2 hblank)] at hopenu
        refine ⟨some ([], false, w), ?_, hopent, hopenu⟩
        rintro a ⟨rfl⟩
        exact List.suffix_rfl
      · rw [if_neg (mt (hspaced t).1 hblank)] at hopent
        rw [if_neg (mt (hspaced u).1 hblank)] at hopenu
        cases doubled with
        | false => exact ⟨none, by simp, hopent, hopenu⟩
        | true => exact hbare ['='] hopent hopenu

/-- What the value of an attribute is read off, from what follows the name: the text behind the
equals signs and blanks. -/
def valueAfter? (after : Text) : Option Text :=
  match trimLeft after with
  | '=' :: r => some (trimLeft (r.dropWhile (· == '=')))
  | _ => none

theorem readValue?_of_equals {after s : Text} (h : trimLeft after = char '=' :: s) :
    readValue? after = readValueAfter (s.head? == some (char '=')) (s.dropWhile (· == '=')) ∧
      valueAfter? after = some (trimLeft (s.dropWhile (· == '='))) := by
  unfold readValue? valueAfter?
  rw [h]
  exact ⟨rfl, rfl⟩

theorem readValue?_eq_none {after : Text} (h : (trimLeft after).head? ≠ some (char '=')) :
    readValue? after = none := by
  unfold readValue?
  split
  · rename_i heq
    rw [heq] at h
    exact absurd rfl h
  · rfl

/-- What may stand behind the name of an attribute: no value is missing right at the end of the
tag, and a double quote that opens a value is closed. -/
structure IsClosed (after : Text) : Prop where
  value : valueAfter? after ≠ some [char '>']
  quote : ∀ s, valueAfter? after = some (char '"' :: s) → char '"' ∈ s

instance (after : Text) : Decidable (IsClosed after) :=
  decidable_of_iff (valueAfter? after ≠ some [char '>'] ∧
      ∀ value ∈ valueAfter? after, value.head? = some (char '"') → char '"' ∈ value.tail) (by
    constructor
    · rintro ⟨hvalue, hquote⟩
      exact ⟨hvalue, fun s hs => hquote _ hs rfl⟩
    · rintro ⟨hvalue, hquote⟩
      refine ⟨hvalue, fun value hmem hhead => ?_⟩
      obtain ⟨s, rfl⟩ : ∃ s, value = char '"' :: s := by
        cases value with
        | nil => cases hhead
        | cons c s => exact ⟨s, by rw [Option.some.inj hhead]⟩
      exact hquote s hmem)

theorem readValue?_append (ht : IsEnding mark t) (hu : IsAddition u) (hw : IsTrimmed w)
    (hclosed : IsClosed (w ++ t))
    (hrest : ∀ a, readValue? (w ++ t) = some a → mark.length ≤ a.2.2.length) :
    ReadsAlike readValue? w t u := by
  have htrim : ∀ r, w ≠ [] → trimLeft (w ++ r) = trimLeft w ++ r := fun r hne =>
    (hw.trimLeft_append hne r).1
  by_cases hequals : (trimLeft w).head? = some (char '=')
  · obtain ⟨s, hs⟩ := List.head?_eq_some_iff.1 hequals
    have hne : w ≠ [] := by
      rintro rfl
      cases hs
    have hdrop : s.dropWhile (· == char '=') <:+ w :=
      calc s.dropWhile (· == char '=')
        _ <:+ s := List.dropWhile_suffix _
        _ <:+ trimLeft w := hs ▸ List.suffix_cons (char '=') s
        _ <:+ w := List.dropWhile_suffix _
    have hfront : ∀ r, trimLeft (w ++ r) = char '=' :: (s ++ r) := by
      intro r
      rw [htrim r hne, hs, List.cons_append]
    obtain ⟨hreadt, hvalue⟩ := readValue?_of_equals (hfront t)
    obtain ⟨hreadu, -⟩ := readValue?_of_equals (hfront u)
    rw [ht.stops.equals_append] at hreadt hvalue
    rw [hu.stops.equals_append] at hreadu
    have hpresent : s.dropWhile (· == char '=') ≠ [] := by
      -- A value that is missing takes what stands at the end for its own.
      intro hmissing
      rw [hmissing, List.nil_append] at hreadt hvalue
      rw [ht.trimLeft_eq] at hvalue
      rcases ht.closes with rfl | rfl
      · exact hclosed.value hvalue
      · have hslash := hreadt.trans (readValueAfter_of_bare _ ht.trimLeft_eq (by decide))
        exact absurd (hrest _ hslash) (by decide)
    have hhead : ∀ r : Text, (s ++ r).head? = s.head? := by
      intro r
      cases s with
      | nil => exact absurd rfl hpresent
      | cons c s => rfl
    rw [hhead] at hreadt hreadu
    have halike :
        ReadsAlike (readValueAfter (s.head? == some (char '='))) (s.dropWhile (· == '=')) t u :=
      readValueAfter_append ht hu (hw.of_suffix hdrop) hpresent _
        (fun x hx => hclosed.quote x (by rw [hvalue, hx])) (fun a ha => hrest a (hreadt.trans ha))
    exact halike.of_suffix hdrop hreadt hreadu
  · have hnone : ∀ r : Text, (trimLeft r).head? ≠ some (char '=') → readValue? (w ++ r) = none := by
      intro r hr
      apply readValue?_eq_none
      by_cases hnil : w = []
      · rw [hnil]
        exact hr
      · obtain ⟨c, s, hs⟩ := List.exists_cons_of_ne_nil (hw.trimLeft_append hnil r).2
        rw [htrim r hnil, hs]
        rw [hs] at hequals
        exact hequals
    refine ⟨none, by simp, hnone t ?_, hnone u hu.value⟩
    rw [ht.trimLeft_eq]
    rcases ht.closes with rfl | rfl <;> decide

/-- **An attribute is read alike in front of the end of a tag and in front of other text.** -/
theorem readAttr?_append (ht : IsEnding mark t) (hu : IsAddition u) (hw : IsTrimmed w)
    (hne : w ≠ []) (hclosed : IsClosed ((w ++ t).tail.dropWhile isAttrNameChar))
    {attr : Text × Text} {next : Bool} {rest : Text}
    (hread : readAttr? (w ++ t) = some (attr, next, rest)) (hrest : mark.length ≤ rest.length) :
    ∃ v, v <:+ w ∧ rest = v ++ t ∧ readAttr? (w ++ u) = some (attr, next, v ++ u) := by
  obtain ⟨c, s, rfl⟩ := List.exists_cons_of_ne_nil hne
  obtain ⟨hnamet, haftert⟩ := ht.stops.name_append s
  obtain ⟨hnameu, hafteru⟩ := hu.stops.name_append s
  have hafter : s.dropWhile isAttrNameChar <:+ c :: s :=
    (List.dropWhile_suffix _).trans (List.suffix_cons c s)
  rw [List.cons_append, List.tail_cons, haftert] at hclosed
  rw [List.cons_append, readAttr?, hnamet, haftert] at hread
  rw [List.cons_append, readAttr?, hnameu, hafteru]
  by_cases hopens : opensAttrName c = true
  · rw [if_pos hopens] at hread ⊢
    dsimp only at hread ⊢
    obtain ⟨o, ho, hot, hou⟩ := readValue?_append ht hu (hw.of_suffix hafter) hclosed (by
      intro a ha
      rw [ha] at hread
      cases hread
      exact hrest)
    rw [hot] at hread
    rw [hou]
    cases o with
    | none =>
        cases hread
        exact ⟨_, hafter, rfl, rfl⟩
    | some a =>
        cases hread
        exact ⟨a.2.2, (ho a rfl).trans hafter, rfl, rfl⟩
  · rw [if_neg hopens] at hread
    cases hread

/-! ## All attributes -/

theorem readAttrs_eq (ready : Bool) (s : Text) :
    readAttrs ready s =
      if ready || decide ((skipGap s).length < s.length) then
        match readAttr? (skipGap s) with
        | some (attr, next, rest) => (attr :: (readAttrs next rest).1, (readAttrs next rest).2)
        | none => ([], skipGap s)
      else ([], skipGap s) := by
  rw [readAttrs]
  split
  · split <;> rename_i heq <;> rw [heq]
  · rfl

/-- What follows the name of each attribute at the front of a text. -/
def afterNames (ready : Bool) (s : Text) : List Text :=
  let gap := skipGap s
  if ready || gap.length < s.length then
    match _h : readAttr? gap with
    | some (_, ready, rest) => gap.tail.dropWhile isAttrNameChar :: afterNames ready rest
    | none => []
  else []
termination_by s.length
decreasing_by
  have := length_of_readAttr? _h
  have := length_skipGap_le s
  simp only [gap] at *
  omega

theorem afterNames_of_some {ready next : Bool} {s rest : Text} {attr : Text × Text}
    (hready : (ready || decide ((skipGap s).length < s.length)) = true)
    (hattr : readAttr? (skipGap s) = some (attr, next, rest)) :
    afterNames ready s = (skipGap s).tail.dropWhile isAttrNameChar :: afterNames next rest := by
  rw [afterNames, if_pos hready]
  split
  · rename_i heq
    rw [hattr] at heq
    cases heq
    rfl
  · rename_i heq
    rw [hattr] at heq
    cases heq

theorem skipGap_cons_eq {c : CodePoint} {s : Text} (h : ¬ (c = '/' ∧ s.head? = some (char '>'))) :
    skipGap (c :: s) = if isBlank c || c == '/' then skipGap s else c :: s := by
  conv_lhs => unfold skipGap
  split
  · rename_i heq
    cases heq
  · rename_i heq
    cases heq
    exact absurd ⟨rfl, rfl⟩ h
  · rename_i heq
    cases heq
    rfl

/-- What is no gap stands in front of what follows. -/
theorem skipGap_append_of_ne_nil (h : skipGap w ≠ []) (r : Text) :
    skipGap (w ++ r) = skipGap w ++ r := by
  fun_induction skipGap w with
  | case1 => exact absurd rfl h
  | case2 s => rfl
  | case3 c s hslash hgap ih =>
      have hne : s ≠ [] := by
        rintro rfl
        exact h rfl
      obtain ⟨d, s, rfl⟩ := List.exists_cons_of_ne_nil hne
      have hopen : ¬ (c = '/' ∧ (d :: s ++ r).head? = some (char '>')) := by
        rintro ⟨rfl, hd⟩
        exact hslash s rfl (by rw [Option.some.inj hd])
      rw [List.cons_append, skipGap_cons_eq hopen, if_pos hgap, ih h]
  | case4 c s hslash hgap =>
      have hopen : ¬ (c = '/' ∧ (s ++ r).head? = some (char '>')) := by
        rintro ⟨rfl, -⟩
        simp at hgap
      rw [List.cons_append, skipGap_cons_eq hopen, if_neg hgap]

/-- A gap is passed over, but its last slash may close the tag. -/
theorem skipGap_append_of_eq_nil (h : skipGap w = []) (r : Text) :
    skipGap (w ++ r) = skipGap r ∨ r.head? = some (char '>') ∧
        skipGap (w ++ r) = char '/' :: r := by
  fun_induction skipGap w with
  | case1 => exact .inl rfl
  | case2 s => cases h
  | case4 c s hslash hgap => cases h
  | case3 c s hslash hgap ih =>
      by_cases hclose : c = '/' ∧ (s ++ r).head? = some (char '>')
      · obtain ⟨rfl, hhead⟩ := hclose
        cases s with
        | cons d s => exact absurd (congrArg (· :: s) (Option.some.inj hhead)) (hslash s rfl)
        | nil =>
            obtain ⟨d, r, rfl⟩ : ∃ d q, r = d :: q := by
              cases r with
              | nil => cases hhead
              | cons d q => exact ⟨d, q, rfl⟩
            obtain rfl : d = '>' := Option.some.inj hhead
            exact .inr ⟨rfl, rfl⟩
      · rw [List.cons_append, skipGap_cons_eq hclose, if_pos hgap]
        exact ih h

theorem IsEnding.skipGap_eq (h : IsEnding mark t) : skipGap t = mark := by
  obtain ⟨g, hg, rfl⟩ := h.blanks
  have hcloses := h.closes
  clear h
  induction g with
  | nil => rcases hcloses with rfl | rfl <;> rfl
  | cons c g ih =>
      obtain ⟨hc, hg⟩ := List.forall_mem_cons.1 hg
      have hopen : ¬ (c = '/' ∧ (g ++ mark).head? = some (char '>')) := by
        rintro ⟨rfl, -⟩
        exact absurd hc (by decide)
      rw [List.cons_append, skipGap_cons_eq hopen, if_pos (by rw [hc]; rfl)]
      exact ih hg

/-- In front of its end, a tag has no further attribute. -/
theorem IsEnding.readAttrs_eq_nil (h : IsEnding mark t) (hgap : skipGap w = []) (ready : Bool) :
    (readAttrs ready (w ++ t)).1 = [] := by
  have hnone : readAttr? (skipGap (w ++ t)) = none := by
    rcases skipGap_append_of_eq_nil hgap t with hskip | ⟨-, hskip⟩
    · rw [hskip, h.skipGap_eq]
      rcases h.closes with rfl | rfl <;> rfl
    · rw [hskip]
      rfl
  rw [readAttrs_of_none hnone]

theorem IsAddition.readAttrs_eq (h : IsAddition u) (hgap : skipGap w = []) (ready : Bool) :
    readAttrs ready (w ++ u) = readAttrs ready u := by
  obtain ⟨r, hr⟩ := h.space
  have hskip : skipGap (w ++ u) = skipGap u := by
    refine (skipGap_append_of_eq_nil hgap u).resolve_right ?_
    rintro ⟨hhead, -⟩
    rw [hr] at hhead
    simp at hhead
  have hshort : (skipGap u).length < u.length := by
    have hle : (skipGap r).length ≤ r.length := length_skipGap_le r
    rw [hr, skipGap_cons_eq (by simp), if_pos (by decide), List.length_cons]
    omega
  have hshort' : (skipGap u).length < (w ++ u).length := by
    rw [List.length_append]
    omega
  rw [StartTag.readAttrs_eq ready (w ++ u), StartTag.readAttrs_eq ready u, hskip,
    decide_eq_true hshort, decide_eq_true hshort']

/-! ## Attribute by attribute -/

section

variable {ready next : Bool} {attrs : List (Text × Text)} {attr : Text × Text} {rest r : Text}

/-- Whether an attribute may begin behind a gap does not depend on what follows. -/
theorem ready_append_iff (r : Text) :
    (ready || decide ((skipGap w ++ r).length < (w ++ r).length)) = true ↔
      (ready || decide ((skipGap w).length < w.length)) = true := by
  rw [Bool.or_eq_true, Bool.or_eq_true, decide_eq_true_eq, decide_eq_true_eq, List.length_append,
    List.length_append, Nat.add_lt_add_iff_right]

/-- One attribute is taken off the front. -/
theorem readAttrs_append_of_some (hgap : skipGap w ≠ [])
    (hready : (ready || decide ((skipGap w).length < w.length)) = true)
    (hattr : readAttr? (skipGap w ++ r) = some (attr, next, rest)) :
    readAttrs ready (w ++ r) = (attr :: (readAttrs next rest).1, (readAttrs next rest).2) ∧
      afterNames ready (w ++ r)
        = (skipGap w ++ r).tail.dropWhile isAttrNameChar :: afterNames next rest := by
  have hskip := skipGap_append_of_ne_nil hgap r
  have hready' := (ready_append_iff r).2 hready
  rw [← hskip] at hready' hattr
  constructor
  · rw [readAttrs_eq, if_pos hready', hattr]
  · rw [afterNames_of_some hready' hattr, hskip]

/-- What is left of a tag that is read to its end begins with an attribute. -/
theorem IsEnding.exists_attr (h : IsEnding mark t) (hgap : skipGap w ≠ [])
    (hread : readAttrs ready (w ++ t) = (attrs, mark)) :
    ∃ attr next rest, (ready || decide ((skipGap w).length < w.length)) = true ∧
      readAttr? (skipGap w ++ t) = some (attr, next, rest) ∧
      readAttrs next rest = (attrs.tail, mark) ∧ attrs = attr :: attrs.tail := by
  -- The reading does not stop where more than the mark is left.
  have hlong : skipGap w ++ t ≠ mark := by
    intro heq
    have hlength := congrArg List.length heq
    have hpos := List.length_pos_of_ne_nil hgap
    have hle := h.length_le
    rw [List.length_append] at hlength
    omega
  rw [readAttrs_eq, skipGap_append_of_ne_nil hgap] at hread
  by_cases hready : (ready || decide ((skipGap w).length < w.length)) = true
  · rw [if_pos ((ready_append_iff t).2 hready)] at hread
    cases hattr : readAttr? (skipGap w ++ t) with
    | none =>
        rw [hattr] at hread
        exact absurd (Prod.mk.inj hread).2 hlong
    | some a =>
        obtain ⟨attr, next, rest⟩ := a
        rw [hattr] at hread
        obtain ⟨rfl, rfl⟩ := Prod.mk.inj hread
        exact ⟨attr, next, rest, hready, rfl, rfl, rfl⟩
  · rw [if_neg (mt (ready_append_iff t).1 hready)] at hread
    exact absurd (Prod.mk.inj hread).2 hlong

/-- **Attributes are read alike in front of the end of a tag and in front of other text**, as long
as each is closed: what is read in that text is added to them. -/
theorem readAttrs_append (ht : IsEnding mark t) (hu : IsAddition u) {added : List (Text × Text)}
    (hadded : ∀ ready, readAttrs ready u = (added, mark)) (hw : IsTrimmed w)
    (hread : readAttrs ready (w ++ t) = (attrs, mark))
    (hclosed : ∀ after ∈ afterNames ready (w ++ t), IsClosed after) :
    readAttrs ready (w ++ u) = (attrs ++ added, mark) := by
  -- What is left behind an attribute ends like the whole, so it is trimmed as well.
  induction hn : w.length using Nat.strong_induction_on generalizing ready w attrs with
  | _ n ih =>
      by_cases hgap : skipGap w = []
      · have hnil := ht.readAttrs_eq_nil hgap ready
        rw [hread] at hnil
        have hattrs : attrs = [] := hnil
        rw [hu.readAttrs_eq hgap, hadded, hattrs, List.nil_append]
      · obtain ⟨attr, next, rest, hready, hattr, hmore, hattrs⟩ := ht.exists_attr hgap hread
        rw [(readAttrs_append_of_some hgap hready hattr).2, List.forall_mem_cons] at hclosed
        have hsuffix : skipGap w <:+ w := skipGap_suffix w
        have hrest : mark.length ≤ rest.length := by
          have hle := (of_readAttrs next rest).2.length_le
          rwa [hmore] at hle
        obtain ⟨v, hv, rfl, hattru⟩ :=
          readAttr?_append ht hu (hw.of_suffix hsuffix) hgap hclosed.1 hattr hrest
        have hlt : v.length < n := by
          have hshort := length_of_readAttr? hattr
          have hle := hsuffix.length_le
          rw [List.length_append, List.length_append] at hshort
          omega
        have hmoreu := ih v.length hlt (hw.of_suffix (hv.trans hsuffix)) hmore hclosed.2 rfl
        rw [(readAttrs_append_of_some hgap hready hattru).1, hmoreu, hattrs]
        rfl

end

end Html.StartTag
end Stencil
