import Stencil.Proofs.Document.Capture
import Stencil.Proofs.Document.Leaves

set_option autoImplicit false

/-! # Elements in the values of attributes

Replacing the elements of a name reaches those that stand in the value of an attribute too
(`replaceMatches_strands`). Such elements are in no tree, so the first pass does not ask for them,
though it may replace one of them on behalf of an equal element of the tree. The second pass finds
what is left over, in the values and in the tree alike, and replaces it.
-/

namespace Stencil.Html

open Text

/-! ## Strands -/

/-- A part of a source: a text or a leaf, or an empty element with a value between single quotes
that is made of texts and leaves itself. -/
inductive Strand where
  | plain (b : Bit)
  | holder (name key : Text) (value : List Bit)
  deriving DecidableEq, Repr

/-- What stands in front of the value of a holder. -/
def holderFront (name key : Text) : Text :=
  [char '<'] ++ name ++ [char ' '] ++ key ++ [char '=', char '\'']

/-- What stands behind the value of a holder. -/
def holderBack (name : Text) : Text := [char '\'', char '>'] ++ endTagText name

namespace Strand

/-- A strand as it is written. -/
def source : Strand → Text
  | plain b => b.source
  | holder name key value => holderFront name key ++ sourceOf value ++ holderBack name

/-- A strand with the outputs in the places of the leaves. -/
def filled (g : Region → Text) : Strand → Text
  | plain b => b.filled g
  | holder name key value => holderFront name key ++ filledWith g value ++ holderBack name

/-- The pieces of a strand. -/
def bits : Strand → List Bit
  | plain b => [b]
  | holder name key value => .text (holderFront name key) :: value ++ [.text (holderBack name)]

/-- The leaf that a strand is. -/
def leaf? : Strand → Option Leaf
  | plain b => b.leaf?
  | holder _ _ _ => none

end Strand

/-- Whether a piece is running text or a leaf of a name. -/
def Bit.WellFormed (n : Text) : Bit → Prop
  | text s => IsRunning s
  | leaf x => x.IsBare n

instance (n : Text) : DecidablePred (Bit.WellFormed n)
  | .text s => inferInstanceAs (Decidable (IsRunning s))
  | .leaf x => inferInstanceAs (Decidable (x.IsBare n))

/-- An element of another name that holds a value for a search for a name. Only in the name of an
attribute could the value refer to a character by a number, and not by one with too many digits. -/
structure IsHolder (n host slot : Text) (bits : List Bit) : Prop where
  name : isElementName host = true
  name_ne : host ≠ n
  not_raw : host ∉ RawText.names
  key : IsAttrWord slot
  value : ∀ b ∈ bits, b.WellFormed n
  quote : char '\'' ∉ sourceOf bits
  number : CharRef.overlongIn? (sourceOf bits) = none

instance (n host slot : Text) (bits : List Bit) : Decidable (IsHolder n host slot bits) :=
  decidable_of_iff
    (isElementName host = true ∧ host ≠ n ∧ RawText.names.elem host = false ∧ IsAttrWord slot ∧
      (∀ b ∈ bits, b.WellFormed n) ∧ char '\'' ∉ sourceOf bits ∧
      CharRef.overlongIn? (sourceOf bits) = none)
    ⟨fun ⟨h₁, h₂, h₃, h₄, h₅, h₆, h₇⟩ => ⟨h₁, h₂, by simpa using h₃, h₄, h₅, h₆, h₇⟩,
      fun ⟨h₁, h₂, h₃, h₄, h₅, h₆, h₇⟩ => ⟨h₁, h₂, by simpa using h₃, h₄, h₅, h₆, h₇⟩⟩

/-- Whether a strand is what it seems to be. -/
def Strand.WellFormed (n : Text) : Strand → Prop
  | plain b => b.WellFormed n
  | holder name key value => IsHolder n name key value

instance (n : Text) : DecidablePred (Strand.WellFormed n)
  | .plain b => inferInstanceAs (Decidable (b.WellFormed n))
  | .holder name key value => inferInstanceAs (Decidable (IsHolder n name key value))

/-- Some strands as they are written one after the other. -/
def strandsSource (xs : List Strand) : Text := xs.flatMap Strand.source

/-- The leaves among some strands, not counting those in values. -/
def topLeaves (xs : List Strand) : List Leaf := xs.filterMap Strand.leaf?

theorem strandsSource_cons (x : Strand) (xs : List Strand) :
    strandsSource (x :: xs) = x.source ++ strandsSource xs := List.flatMap_cons

theorem sourceOf_bits (xs : List Strand) :
    sourceOf (xs.flatMap Strand.bits) = strandsSource xs := by
  rw [sourceOf, strandsSource, List.flatMap_assoc]
  refine List.flatMap_congr fun x _ => ?_
  cases x with
  | plain b => simp [Strand.bits, Strand.source]
  | holder name key value => simp [Strand.bits, Strand.source, Bit.source, sourceOf]

theorem filledWith_bits (g : Region → Text) (xs : List Strand) :
    filledWith g (xs.flatMap Strand.bits) = xs.flatMap (Strand.filled g) := by
  rw [filledWith, List.flatMap_assoc]
  refine List.flatMap_congr fun x _ => ?_
  cases x with
  | plain b => simp [Strand.bits, Strand.filled]
  | holder name key value => simp [Strand.bits, Strand.filled, Bit.filled, filledWith]

/-! ## No end tag of the name but those of the leaves -/

theorem Bit.WellFormed.fits {n : Text} {b : Bit} (h : b.WellFormed n) : b.Fits n := by
  cases b with
  | text s => exact misses_of_not_mem (not_mem_of_isRunning h)
  | leaf x => exact h

namespace IsHolder

variable {n name key : Text} {value : List Bit} (h : IsHolder n name key value)

include h

theorem lt_not_mem_key : char '<' ∉ key := fun hm => absurd (h.key.chars _ hm) (by decide)

theorem misses_front : Misses (endTagText n) (holderFront name key) := by
  obtain ⟨c, s, hc, halpha⟩ := exists_cons_of_isElementName h.name
  have htail : char '<' ∉ name ++ [char ' '] ++ key ++ [char '=', char '\''] := by
    simp [not_mem_of_isElementName h.name (a := '<') (by decide), h.lt_not_mem_key]
  refine misses_cons (s := name ++ [char ' '] ++ key ++ [char '=', char '\'']) (fun r => ?_)
    (misses_of_not_mem htail)
  rw [after?_eq_none_iff]
  intro q e
  rw [hc] at e
  rw [(List.cons.inj (List.cons.inj e).2).1] at halpha
  exact absurd halpha (by decide)

theorem misses_back (hn : isElementName n = true) : Misses (endTagText n) (holderBack name) :=
  (misses_of_not_mem (s := ['\'', '>']) (by decide)).append
    (misses_endTagText h.name_ne (not_mem_of_isElementName hn (by decide))
      (not_mem_of_isElementName h.name (by decide)) (not_mem_of_isElementName h.name (by decide)))

end IsHolder

theorem Strand.WellFormed.fits {n : Text} (hn : isElementName n = true) {x : Strand}
    (h : x.WellFormed n) : ∀ b ∈ x.bits, b.Fits n := by
  cases x with
  | plain b =>
      intro b' hb
      rw [List.mem_singleton.1 hb]
      exact Bit.WellFormed.fits h
  | holder name key value =>
      have hh : IsHolder n name key value := h
      intro b hb
      simp only [Strand.bits, List.cons_append, List.mem_cons, List.mem_append, List.not_mem_nil,
        or_false] at hb
      rcases hb with rfl | hb | rfl
      exacts [hh.misses_front, (hh.value b hb).fits, hh.misses_back hn]

/-! ## Reading strands -/

/-- The start tag of a holder is read with its value as a whole. -/
theorem IsHolder.read {n name key : Text} {value : List Bit} (h : IsHolder n name key value)
    (r : Text) :
    StartTag.read (name ++ char ' ' ::
        (key ++ [char '=', char '\''] ++ sourceOf value ++ char '\'' :: char '>' :: r))
      = .tag ⟨name, [(lower key, CharRef.unescape (sourceOf value))], false⟩ r := by
  obtain ⟨c, k, hk, hblank, hslash, -⟩ :=
    exists_cons_of_isQuotedAttrChar h.key.ne_nil h.key.chars
  have hready : (name.getLast?.map StartTag.endsPiece).getD false = false := by
    cases hl : name.getLast? with
    | none => rfl
    | some c => exact not_endsPiece_of_mem h.name c (List.mem_of_getLast? hl)
  set body := key ++ [char '=', char '\''] ++ sourceOf value ++ char '\'' :: char '>' :: r
    with hbody
  have hgap : StartTag.skipGap (' ' :: body) = body := by
    have key := skipGap_append (g := [' ']) (by decide) body
    rw [List.singleton_append] at key
    rw [key, hbody, hk]
    exact skipGap_cons _ hblank hslash
  have hattr : StartTag.readAttr? body
      = some ((lower key, sourceOf value), true, char '>' :: r) :=
    readAttr?_quoted h.key.ne_nil h.key.chars (by decide) h.quote _
  have hend : StartTag.readAttrs true ('>' :: r) = ([], char '>' :: r) := by
    have hskip := skipGap_cons (c := '>') r (by decide) (by decide)
    rw [readAttrs_of_none (by rw [hskip]; rfl), hskip]
  have hattrs : StartTag.readAttrs false (' ' :: body)
      = ([(lower key, sourceOf value)], char '>' :: r) := by
    rw [readAttrs_of_some (by rw [hgap]; simp) (by rw [hgap]; exact hattr), hend]
  have hstop : StartTag.isNameChar ' ' = false := by decide
  rw [StartTag.read]
  simp only [takeWhile_append_cons body (isNameChar_of_mem h.name) hstop,
    dropWhile_append_cons body (isNameChar_of_mem h.name) hstop, hready, hattrs,
    lower_eq_self h.name]
  exact ofAttrs_of_forall (by simpa using h.number) _

theorem IsHolder.readsAs {n name key : Text} {value : List Bit} (h : IsHolder n name key value)
    (last : Bool) (p : Position) (r : Text) :
    ReadsAs last .markup .markup p (Strand.holder name key value).source
      [⟨name, Table.ofPairs [(lower key, CharRef.unescape (sourceOf value))], p⟩] r := by
  obtain ⟨c, s, hc, halpha⟩ := exists_cons_of_isElementName h.name
  have hnext := next_of_read (by simp [hc, halpha]) (h.read (endTagText name ++ r)) last p
  have hraw : RawText.names.elem name = false := by simpa using h.not_raw
  simp only [hraw, Bool.and_false, Bool.false_eq_true, if_false] at hnext
  have hopen :=
    readsAs_of_next (s := holderFront name key ++ sourceOf value ++ [char '\'', char '>'])
    (r := endTagText name ++ r) (by simp [holderFront]) (by simpa [holderFront] using hnext)
  have key := hopen.append (readsAs_endTag h.name last _ r)
  simpa [Strand.source, holderBack, Token.opened?] using key

/-- A leaf behind running text is read as its start tag. -/
theorem Leaf.IsBare.readsAs {n : Text} {x : Leaf} (h : x.IsBare n) (hraw : n ∉ RawText.names)
    (last : Bool) (p : Position) (r : Text) :
    ReadsAs last .markup .markup p x.source [x.tag.tagAt p] r := by
  have hopen := readsAs_openTag h.tag last p (x.text ++ (endTagText x.tag.name ++ r))
  rw [OpenTag.contentMode_of_not_mem (h.name ▸ hraw)] at hopen
  have htext := readsAs_running h.text (endsRunning_endTagText x.tag.name r) last
    (p.advance x.tag.source)
  have key := (hopen.append htext).append (readsAs_endTag h.tag.name last _ r)
  simpa [Leaf.source, Leaf.front] using key

/-- The tag that a strand at a position is read as; a text is read as none. -/
def Strand.tag? (p : Position) : Strand → Option Tag
  | plain b => b.leaf?.map (·.tag.tagAt p)
  | holder name key value =>
      some ⟨name, Table.ofPairs [(lower key, CharRef.unescape (sourceOf value))], p⟩

/-- The tags that strands are read as, when they are written one after the other from a position
on. -/
def strandTags (p : Position) : List Strand → List Tag
  | [] => []
  | x :: xs => (x.tag? p).toList ++ strandTags (p.advance x.source) xs

section

variable {n : Text} (hraw : n ∉ RawText.names)

include hraw

theorem Strand.WellFormed.readsAs {x : Strand} (h : x.WellFormed n)
    (hne : ∀ s, x ≠ .plain (.text s)) (last : Bool) (p : Position) (r : Text) :
    EndsRunning (x.source ++ r) ∧ ReadsAs last .markup .markup p x.source (x.tag? p).toList r := by
  match x, h, hne with
  | .plain (.text s), _, hne => exact absurd rfl (hne s)
  | .plain (.leaf y), h, _ =>
      have hy : y.IsBare n := h
      refine ⟨Or.inr ⟨y.tag.inside ++ char '>' :: y.text ++ endTagText y.tag.name ++ r, ?_⟩,
        hy.readsAs hraw last p r⟩
      simp [Strand.source, Bit.source, Leaf.source, Leaf.front_eq]
  | .holder name key value, h, _ =>
      have hh : IsHolder n name key value := h
      exact ⟨Or.inr ⟨_, rfl⟩, hh.readsAs last p r⟩

/-- Strands behind running text are read as their tags. -/
theorem readsAs_strands {xs : List Strand} (hxs : ∀ x ∈ xs, x.WellFormed n) {s : Text}
    (hs : IsRunning s) (p : Position) :
    ReadsAs false .markup .markup p (s ++ strandsSource xs) (strandTags (p.advance s) xs) [] := by
  -- the running text in front is part of the induction: a text may stand behind a text
  induction xs generalizing s p with
  | nil =>
      rw [strandsSource, List.flatMap_nil, List.append_nil]
      exact readsAs_running hs (Or.inl rfl) false p
  | cons x xs ih =>
      have hx := hxs x List.mem_cons_self
      have hrest := fun {s : Text} => ih (fun y hy => hxs y (List.mem_cons_of_mem x hy)) (s := s)
      rw [strandsSource_cons, strandTags]
      by_cases htext : ∃ t, x = .plain (.text t)
      · -- running text goes on in the next strand
        obtain ⟨t, rfl⟩ := htext
        have ht : IsRunning t := hx
        have hst : IsRunning (s ++ t) := fun c hc => (List.mem_append.1 hc).elim (hs c) (ht c)
        have key := hrest hst p
        rwa [List.append_assoc, Position.advance_append] at key
      · obtain ⟨hends, hreads⟩ := hx.readsAs hraw (fun t e => htext ⟨t, e⟩) false (p.advance s)
          (strandsSource xs ++ [])
        have htail : ReadsAs false .markup .markup ((p.advance s).advance x.source)
            (strandsSource xs) (strandTags ((p.advance s).advance x.source) xs) [] :=
          hrest (s := []) (by simp [IsRunning]) _
        have hfront := readsAs_running hs (r := x.source ++ strandsSource xs ++ [])
          (by simpa using hends) false p
        exact hfront.append (hreads.append htail)

end

/-! ## What is found in strands -/

theorem topLeaves_cons (x : Strand) (xs : List Strand) :
    topLeaves (x :: xs) = x.leaf?.toList ++ topLeaves xs := by
  rw [topLeaves, topLeaves, List.filterMap_eq_flatMap_toList, List.filterMap_eq_flatMap_toList,
    List.flatMap_cons]

theorem mem_topLeaves {x : Leaf} {xs : List Strand} (h : x ∈ topLeaves xs) :
    .plain (.leaf x) ∈ xs := by
  obtain ⟨y, hy, e⟩ := List.mem_filterMap.1 h
  match y, e with
  | .plain (.leaf z), e => rwa [← Option.some.inj e]

section

variable {n : Text} (hn : isElementName n = true) (hraw : n ∉ RawText.names)

include hn hraw

/-- The tag of a strand leads to a match of the name when the strand is a leaf. -/
theorem Strand.WellFormed.exists_match? {x : Strand} (h : x.WellFormed n) {source pre r : Text}
    (hsource : source = pre ++ (x.source ++ r)) :
    ∃ ms : List Match,
      ((x.tag? (Position.origin.advance pre)).toList.filter (Selector.ofName n).selects).map
        (Tag.match? source) = ms.map some ∧
      ms.map Match.region = x.leaf?.toList.map Leaf.region := by
  match x, h with
  | .plain (.text t), _ => exact ⟨[], rfl, rfl⟩
  | .plain (.leaf y), h =>
      have hy : y.IsBare n := h
      have hregion := region?_element hy.tag (hy.name ▸ hraw)
        (isBalanced_of_not_mem y.tag.name (not_mem_of_isRunning hy.text)) r
      have hplace : source = pre ++ (y.tag.source ++ (y.text ++ endTagText y.tag.name ++ r)) := by
        simpa [Strand.source, Bit.source, Leaf.source, Leaf.front] using hsource
      have hmatch := match?_of_region? pre (y.tag.tagAt (Position.origin.advance pre)) hplace rfl
        hregion
      have hsel : (Selector.ofName n).selects
          (y.tag.tagAt (Position.origin.advance pre)) = true := by
        have key := selectedBy_ofName_self y.tag
        rwa [hy.name] at key
      refine ⟨[⟨y.tag.tagAt (Position.origin.advance pre), y.tag.source, y.text,
        endTagText y.tag.name⟩], ?_, rfl⟩
      rw [Strand.tag?, Bit.leaf?, Option.map_some, Option.toList_some,
        List.filter_cons_of_pos hsel, List.filter_nil, List.map_singleton, hmatch]
      rfl
  | .holder name key value, h =>
      have hh : IsHolder n name key value := h
      have hname : sameName n name = false := by
        rw [sameName_iff (map_toLower_of_isElementName hn) (map_toLower_of_isElementName hh.name),
          decide_eq_false_iff_not]
        exact hh.name_ne
      refine ⟨[], ?_, rfl⟩
      rw [Strand.tag?, Option.toList_some, List.filter_cons_of_neg, List.filter_nil]
      · rfl
      · simp [Selector.ofName, Selector.selects, hname]

/-- The tags of the name among those of strands lead to the leaves at the top. -/
theorem exists_match?_strandTags {xs : List Strand} (hxs : ∀ x ∈ xs, x.WellFormed n)
    (source pre : Text) (hsource : source = pre ++ strandsSource xs) :
    ∃ ms : List Match,
      ((strandTags (Position.origin.advance pre) xs).filter (Selector.ofName n).selects).map
        (Tag.match? source) = ms.map some ∧
      ms.map Match.region = (topLeaves xs).map Leaf.region := by
  induction xs generalizing pre with
  | nil => exact ⟨[], rfl, rfl⟩
  | cons x xs ih =>
      rw [strandsSource_cons] at hsource
      obtain ⟨ms, htags, hms⟩ := (hxs x List.mem_cons_self).exists_match? hn hraw hsource
      obtain ⟨more, htags', hmore⟩ := ih (fun y hy => hxs y (List.mem_cons_of_mem x hy))
        (pre ++ x.source) (by rw [hsource, List.append_assoc])
      rw [Position.advance_append] at htags'
      refine ⟨ms ++ more, ?_, ?_⟩
      · rw [strandTags, List.filter_append, List.map_append, htags, htags', List.map_append]
      · rw [List.map_append, hms, hmore, topLeaves_cons, List.map_append]

/-- The elements of the name that are found in strands are the leaves at the top. -/
theorem exists_matchesIn_strands {xs : List Strand} (hxs : ∀ x ∈ xs, x.WellFormed n) :
    ∃ ms, matchesIn (strandsSource xs) (.ofName n) none = .ok ms ∧
      ms.map Match.region = (topLeaves xs).map Leaf.region := by
  obtain ⟨ms, htags, hms⟩ := exists_match?_strandTags hn hraw hxs (strandsSource xs) [] rfl
  have hread := readsAs_strands hraw hxs (s := []) (by simp [IsRunning]) .origin
  rw [List.nil_append] at hread
  exact ⟨ms, matchesIn_of_readsAs hread htags none, hms⟩

end

/-! ## The two passes -/

section

variable {m : Type → Type} [Monad m] [LawfulMonad m] {n : Text} (hn : isElementName n = true)
  (hraw : n ∉ RawText.names) {g : Region → Text}

include hn

theorem areFit_bits {xs : List Strand} (hxs : ∀ x ∈ xs, x.WellFormed n)
    (hg : ∀ x ∈ leavesOf (xs.flatMap Strand.bits),
      ∃ d : Document, d.IsForeign n ∧ g x.region = d.source) :
    AreFit n g (xs.flatMap Strand.bits) where
  fits := by
    intro b hb
    obtain ⟨x, hx, hb⟩ := List.mem_flatMap.1 hb
    exact (hxs x hx).fits hn b hb
  output := by
    intro x hx
    obtain ⟨d, hd, e⟩ := hg x hx
    rw [e]
    exact hd.misses hn

include hraw

/-- The first pass replaces some leaves, and which they are does not matter. -/
theorem patch_strands {xs : List Strand} (hxs : ∀ x ∈ xs, x.WellFormed n)
    (hfit : AreFit n g (xs.flatMap Strand.bits)) :
    ∃ ms after, matchesIn (strandsSource xs) (.ofName n) none = .ok ms ∧
      patch (textually g : Match → m Text) .outer (strandsSource xs) ms = pure (sourceOf after) ∧
      AreFit n g after ∧ filledWith g after = xs.flatMap (Strand.filled g) := by
  obtain ⟨ms, hms, hregions⟩ := exists_matchesIn_strands hn hraw hxs
  have hfound : ∀ found ∈ ms, ∃ x : Leaf, x.IsBare n ∧ found.region = x.region := by
    intro found hfound
    have hregion := List.mem_map_of_mem (f := Match.region) hfound
    rw [hregions] at hregion
    obtain ⟨x, hx, e⟩ := List.mem_map.1 hregion
    exact ⟨x, hxs _ (mem_topLeaves hx), e.symm⟩
  obtain ⟨after, key⟩ := patch_leaves (m := m) hfit hfound
  rw [sourceOf_bits, filledWith_bits] at key
  exact ⟨ms, after, hms, key⟩

/-- The second pass replaces all leaves that are left. -/
theorem patch_leftovers {bits : List Bit} (hbits : AreFit n g bits) :
    ∃ ms, matchesIn (leftovers n (sourceOf bits)).flatten (.ofName n) none = .ok ms ∧
      patch (textually g : Match → m Text) .outer (sourceOf bits) ms = pure (filledWith g bits) := by
  have hlt : char '<' ∉ n := not_mem_of_isElementName hn (by decide)
  have hwf : ∀ y ∈ (leavesOf bits).map fun x => Strand.plain (.leaf x), y.WellFormed n := by
    intro y hy
    obtain ⟨x, hx, rfl⟩ := List.mem_map.1 hy
    exact hbits.fits (.leaf x) (mem_leavesOf.1 hx)
  -- the second pass searches a text that is made of nothing but these leaves
  have htop : topLeaves ((leavesOf bits).map fun x => .plain (.leaf x)) = leavesOf bits := by
    rw [topLeaves, List.filterMap_map]
    exact List.filterMap_some
  have hleft : (leftovers n (sourceOf bits)).flatten
      = strandsSource ((leavesOf bits).map fun x => .plain (.leaf x)) := by
    rw [leftovers_sourceOf hbits.fits hlt, strandsSource, List.flatMap_map, List.flatMap_def]
    rfl
  obtain ⟨ms, hms, hregions⟩ := exists_matchesIn_strands hn hraw hwf
  rw [htop] at hregions
  rw [hleft]
  exact ⟨ms, hms, patch_allLeaves hbits (List.Perm.refl _) hregions⟩

end

/-- **The two passes.** Replacing the elements of a name in a text made of running text, of leaves
of that name, and of empty elements with such texts and leaves in a value: when each output depends
on the text of its element alone and is the source of a document of other names, every leaf is
replaced in its place by its own output, once, in values and in the tree alike, and all else stays
as it is. -/
theorem replaceMatches_strands {m : Type → Type} [Monad m] [LawfulMonad m] {n : Text}
    (hn : isElementName n = true) (hchars : n.all Selector.isNameChar = true)
    (hraw : n ∉ RawText.names) {xs : List Strand} (hxs : ∀ x ∈ xs, x.WellFormed n)
    {g : Region → Text}
    (hg : ∀ x ∈ leavesOf (xs.flatMap Strand.bits),
      ∃ d : Document, d.IsForeign n ∧ g x.region = d.source) :
    replaceMatches (fun found => (pure (g found.region) : m Text)) .outer (.ofName n) none
        (xs.flatMap Strand.source)
      = pure (xs.flatMap (Strand.filled g)) ∧
    Selector.parse? n = some (.ofName n) := by
  refine ⟨?_, parse?_name hn hchars⟩
  have hlt : char '<' ∉ n := not_mem_of_isElementName hn (by decide)
  obtain ⟨ms, after, hms, hafter, hfit, hfilled⟩ :=
    patch_strands (m := m) hn hraw hxs (areFit_bits hn hxs hg)
  have hfirst : ∀ f : Text → ExceptT Overlong m Text,
      (liftM (Except.ok ms : Except Overlong _) >>= fun found =>
        ExceptT.lift (patch (textually g) .outer (strandsSource xs) found) >>= f)
      = f (sourceOf after) := by
    intro f
    show (pure ms >>= _ : ExceptT Overlong m Text) = _
    rw [pure_bind, hafter, ExceptT.lift_pure, pure_bind]
  rw [replaceMatches, ← strandsSource, ← hfilled, hms]
  refine (hfirst _).trans ?_
  rw [bareName?_ofName hn hchars]
  dsimp only
  split
  · -- nothing is left over, so all leaves have been replaced
    rename_i hnone
    rw [leftovers_sourceOf hfit.fits hlt, List.isEmpty_iff, List.map_eq_nil_iff] at hnone
    rw [filledWith_eq_sourceOf g hnone]
  · obtain ⟨left, hleft, hpatch⟩ := patch_leftovers (m := m) hn hraw hfit
    rw [hleft]
    show (pure left >>= fun found => ExceptT.lift (patch (textually g) .outer (sourceOf after) found)
      : ExceptT Overlong m Text) = _
    rw [pure_bind, hpatch, ExceptT.lift_pure]

/-- An element that encloses a text. -/
def boxed (t : Text) : Document :=
  .element "(".text ⟨"b".text, [⟨" ".text, "k".text, ">&".text⟩], []⟩ (.text t)
    (.text ")".text)

/-- Equal leaves in a value and behind it, with a leaf that stands in the value only. -/
def strewnSlots : List Strand :=
  [.plain (.text "a\"".text),
    .holder "meta".text "k".text
      [.text "p>".text, .leaf ⟨.bare "x-s".text, "t".text⟩, .leaf ⟨.bare "x-s".text, []⟩],
    .plain (.leaf ⟨.bare "x-s".text, "t".text⟩), .plain (.text "b".text),
    .plain (.leaf ⟨⟨"x-s".text, [⟨" ".text, "k".text, "v".text⟩], []⟩, "u".text⟩)]

theorem replaceMatches_strands_strewnSlots :
    strewnSlots.flatMap Strand.source
        = "a\"<meta k='p><x-s>t</x-s><x-s></x-s>'></meta>".text ++
          "<x-s>t</x-s>b<x-s k=\"v\">u</x-s>".text ∧
      replaceMatches (fun found => (pure (boxed found.region.inner).source : Id Text)) .outer
          (.ofName "x-s".text) none (strewnSlots.flatMap Strand.source)
        = pure ("a\"<meta k='p>(<b k=\">&\">t</b>)(<b k=\">&\"></b>)'></meta>".text ++
          "(<b k=\">&\">t</b>)b(<b k=\">&\">u</b>)".text) ∧
      Selector.parse? "x-s".text = some (.ofName "x-s".text) := by
  have hinner : ∀ x ∈ leavesOf (strewnSlots.flatMap Strand.bits), char '<' ∉ x.text := by
    decide +kernel
  obtain ⟨hreplaced, hparse⟩ := replaceMatches_strands (m := Id) (n := "x-s".text)
    (g := fun r => (boxed r.inner).source) (by decide) (by decide) (by decide)
    (show ∀ x ∈ strewnSlots, x.WellFormed "x-s".text by decide +kernel)
    fun x hx => ⟨boxed x.text, ⟨by decide, by decide, hinner x hx,
      show char '<' ∉ ")".text by decide⟩, rfl⟩
  refine ⟨by decide +kernel, ?_, hparse⟩
  rw [hreplaced]
  exact congrArg pure (by decide +kernel)

end Stencil.Html
