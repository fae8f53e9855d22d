import Mathlib.Data.List.Perm.Basic
import Stencil.Proofs.Document.Occurrence

set_option autoImplicit false

/-! # Elements of running text, wherever they stand

An element that holds nothing but running text is a leaf. In a text made of leaves of one name and
of texts in which no end tag of that name begins, the end tags are those of the leaves. So the text
of a leaf stands only where such a leaf is (`exists_leaf_of_source`), a search outside the tree
finds just the leaves (`leftovers_sourceOf`), and each replacement puts an output in the place of
one leaf (`patchOne_leaf`). Which of several equal leaves that is does not matter: their outputs are
equal too, so what all replacements together come to is known from the start (`filledWith`).
-/

namespace Stencil.Html

open Text

/-! ## Texts in which a pattern does not begin -/

/-- Whether a pattern begins nowhere in a text, whatever follows the text. -/
def Misses (p s : Text) : Prop := ∀ b, b <:+ s → b ≠ [] → ∀ r, after? p (b ++ r) = none

theorem Misses.of_cons {p s : Text} {c : CodePoint} (h : Misses p (c :: s)) : Misses p s :=
  fun b hb => h b (hb.trans (List.suffix_cons c s))

theorem misses_cons {p s : Text} {c : CodePoint} (hc : ∀ r, after? p (c :: s ++ r) = none)
    (hs : Misses p s) : Misses p (c :: s) := by
  intro b hb hne r
  rcases List.suffix_cons_iff.1 hb with rfl | hb
  exacts [hc r, hs b hb hne r]

theorem misses_of_not_mem {p s : Text} {c : CodePoint} (h : c ∉ s) : Misses (c :: p) s := by
  intro b hb hne r
  obtain ⟨d, b, rfl⟩ := List.exists_cons_of_ne_nil hne
  exact after?_cons_of_ne _ _ fun e => h (hb.subset (e ▸ List.mem_cons_self))

theorem Misses.append {p s t : Text} (hs : Misses p s) (ht : Misses p t) : Misses p (s ++ t) := by
  induction s with
  | nil => exact ht
  | cons c s ih =>
      refine misses_cons (fun r => ?_) (ih hs.of_cons)
      have key := hs (c :: s) List.suffix_rfl (by simp) (t ++ r)
      rwa [← List.append_assoc] at key

/-- Where a pattern does not begin, it begins behind. -/
theorem Misses.exists_append {p s r a b : Text} (hs : Misses p s) (e : s ++ r = a ++ (p ++ b)) :
    ∃ a', a = s ++ a' ∧ r = a' ++ (p ++ b) := by
  rcases List.append_eq_append_iff.1 e with ⟨a', ha, hr⟩ | ⟨b', rfl, hb⟩
  · exact ⟨a', ha, hr⟩
  · by_cases hne : b' = []
    · subst hne
      exact ⟨[], by simp, by simpa using hb.symm⟩
    · have hnone := hs b' (List.suffix_append a b') hne r
      rw [← hb, after?_append] at hnone
      cases hnone

/-- A start tag holds no end tag. -/
theorem misses_tag {p x : Text} (hx : char '<' ∉ x) (hslash : x.head? ≠ some (char '/')) :
    Misses ('<' :: char '/' :: p) ('<' :: (x ++ [char '>'])) := by
  refine misses_cons (fun r => ?_) (misses_of_not_mem (by simpa using hx))
  rw [after?_eq_none_iff]
  intro q e
  cases x with
  | nil => exact absurd (List.cons.inj (List.cons.inj e).2).1 (by decide)
  | cons c x =>
      refine hslash ?_
      rw [(List.cons.inj (List.cons.inj e).2).1]
      rfl

/-- An end tag holds no end tag of another name. -/
theorem misses_endTagText {n m : Text} (hnm : m ≠ n) (hn : char '>' ∉ n) (hm : char '>' ∉ m)
    (hlt : char '<' ∉ m) : Misses (endTagText n) (endTagText m) := by
  have htail : Misses (endTagText n) ('/' :: (m ++ [char '>'])) :=
    misses_of_not_mem (by simpa using hlt)
  refine misses_cons (fun r => ?_) htail
  rw [after?_eq_none_iff]
  intro q e
  have e' : m ++ char '>' :: r = n ++ char '>' :: q := by simpa [endTagText] using e
  exact hnm (append_cons_inj_of_not_mem hm hn e').1

/-! ## Documents without a name -/

/-- A start tag of another name. Its values may hold everything but `<`. -/
structure OpenTag.IsForeign (n : Text) (t : OpenTag) : Prop where
  name_ne : t.name ≠ n
  head : (t.name.head?.map CodePoint.isAlpha).getD false = true
  name : ∀ c ∈ t.name, StartTag.isNameChar c = true
  inside : char '<' ∉ t.inside

instance (n : Text) : DecidablePred (OpenTag.IsForeign n) := fun t =>
  decidable_of_iff
    (t.name ≠ n ∧ (t.name.head?.map CodePoint.isAlpha).getD false = true ∧
      (∀ c ∈ t.name, StartTag.isNameChar c = true) ∧ char '<' ∉ t.inside)
    ⟨fun ⟨h₁, h₂, h₃, h₄⟩ => ⟨h₁, h₂, h₃, h₄⟩, fun ⟨h₁, h₂, h₃, h₄⟩ => ⟨h₁, h₂, h₃, h₄⟩⟩

namespace Document

/-- Whether all elements of a document have other names, and its texts open no tag. -/
def IsForeign (n : Text) : Document → Prop
  | text s => char '<' ∉ s
  | element before tag content rest =>
      char '<' ∉ before ∧ tag.IsForeign n ∧ content.IsForeign n ∧ rest.IsForeign n

/-- No end tag of a name begins in a document whose elements have other names. -/
theorem IsForeign.misses {n : Text} (hn : isElementName n = true) {d : Document}
    (h : d.IsForeign n) : Misses (endTagText n) d.source := by
  induction d with
  | text s => exact misses_of_not_mem h
  | element before tag content rest ihc ihr =>
      obtain ⟨hbefore, ht, hcontent, hrest⟩ := h
      have hopen : Misses (endTagText n) tag.source := by
        have hsource : tag.source = char '<' :: (tag.inside ++ [char '>']) := by
          simp [OpenTag.source]
        rw [hsource]
        refine misses_tag ht.inside fun e => ?_
        have hhead := ht.head
        cases hname : tag.name with
        | nil =>
            rw [hname] at hhead
            exact absurd hhead (by decide)
        | cons c s =>
            rw [OpenTag.inside, hname] at e
            rw [hname, Option.some.inj e] at hhead
            exact absurd (show '/'.isAlpha = true from hhead) (by decide)
      have hclose : Misses (endTagText n) (endTagText tag.name) :=
        misses_endTagText ht.name_ne (not_mem_of_isElementName hn (by decide))
          (fun hm => absurd (ht.name _ hm) (by decide))
          fun hm => ht.inside (List.mem_append_left _ hm)
      exact ((((misses_of_not_mem hbefore).append hopen).append (ihc hcontent)).append
        hclose).append (ihr hrest)

end Document

/-! ## Leaves -/

/-- An element that holds a text only. -/
structure Leaf where
  tag : OpenTag
  text : Text
  deriving DecidableEq, Repr

namespace Leaf

/-- A leaf without its end tag. -/
def front (x : Leaf) : Text := x.tag.source ++ x.text

/-- A leaf as it is written. -/
def source (x : Leaf) : Text := x.front ++ endTagText x.tag.name

/-- The three parts of a leaf. -/
def region (x : Leaf) : Region := ⟨x.tag.source, x.text, endTagText x.tag.name⟩

/-- A well-formed leaf of a name, with running text. -/
structure IsBare (n : Text) (x : Leaf) : Prop where
  tag : x.tag.WellFormed
  name : x.tag.name = n
  text : IsRunning x.text

instance (n : Text) : DecidablePred (IsBare n) := fun x =>
  decidable_of_iff (x.tag.WellFormed ∧ x.tag.name = n ∧ IsRunning x.text)
    ⟨fun ⟨h₁, h₂, h₃⟩ => ⟨h₁, h₂, h₃⟩, fun ⟨h₁, h₂, h₃⟩ => ⟨h₁, h₂, h₃⟩⟩

variable {n : Text} {x y : Leaf}

theorem front_eq (x : Leaf) : x.front = char '<' :: (x.tag.inside ++ char '>' :: x.text) := by
  simp [front, OpenTag.source]

/-- Only the start tag of a leaf begins in front of its end tag. -/
theorem IsBare.lt_not_mem (h : x.IsBare n) : char '<' ∉ x.tag.inside ++ char '>' :: x.text := by
  rw [List.mem_append, List.mem_cons]
  rintro (hm | hm | hm)
  exacts [h.tag.lt_not_mem hm, absurd hm (by decide), not_mem_of_isRunning h.text hm]

theorem IsBare.front_inj (hx : x.IsBare n) (hy : y.IsBare n) (h : x.front = y.front) : x = y := by
  obtain ⟨htag, htext⟩ := openTag_source_inj hx.tag hy.tag h
  cases x
  cases y
  simp_all

end Leaf

/-! ## Texts with leaves -/

/-- A piece of a text: a leaf, or anything else. -/
inductive Bit where
  | text (s : Text)
  | leaf (x : Leaf)
  deriving DecidableEq, Repr

namespace Bit

/-- A piece as it is written. -/
def source : Bit → Text
  | text s => s
  | leaf x => x.source

/-- The leaf that a piece is. -/
def leaf? : Bit → Option Leaf
  | text _ => none
  | leaf x => some x

/-- A piece with the output in the place of the leaf. -/
def filled (g : Region → Text) : Bit → Text
  | text s => s
  | leaf x => g x.region

/-- Whether a piece is a leaf of a name, or holds no end tag of that name. -/
def Fits (n : Text) : Bit → Prop
  | text s => Misses (endTagText n) s
  | leaf x => x.IsBare n

end Bit

/-- Some pieces as they are written one after the other. -/
def sourceOf (bits : List Bit) : Text := bits.flatMap Bit.source

/-- The leaves among some pieces. -/
def leavesOf (bits : List Bit) : List Leaf := bits.filterMap Bit.leaf?

/-- Some pieces with the outputs in the places of the leaves. -/
def filledWith (g : Region → Text) (bits : List Bit) : Text := bits.flatMap (Bit.filled g)

theorem sourceOf_cons (b : Bit) (bits : List Bit) :
    sourceOf (b :: bits) = b.source ++ sourceOf bits := List.flatMap_cons

theorem sourceOf_append (bits more : List Bit) :
    sourceOf (bits ++ more) = sourceOf bits ++ sourceOf more := List.flatMap_append

theorem leavesOf_append (bits more : List Bit) :
    leavesOf (bits ++ more) = leavesOf bits ++ leavesOf more := List.filterMap_append

theorem filledWith_append (g : Region → Text) (bits more : List Bit) :
    filledWith g (bits ++ more) = filledWith g bits ++ filledWith g more := List.flatMap_append

theorem mem_leavesOf {x : Leaf} {bits : List Bit} : x ∈ leavesOf bits ↔ .leaf x ∈ bits := by
  rw [leavesOf, List.mem_filterMap]
  constructor
  · rintro ⟨b, hb, e⟩
    cases b with
    | text s => cases e
    | leaf y => rwa [← Option.some.inj e]
  · exact fun h => ⟨_, h, rfl⟩

/-- Without leaves there is nothing to replace. -/
theorem filledWith_eq_sourceOf (g : Region → Text) {bits : List Bit} (h : leavesOf bits = []) :
    filledWith g bits = sourceOf bits := by
  refine List.flatMap_congr fun b hb => ?_
  cases b with
  | text s => rfl
  | leaf x =>
      have hx := mem_leavesOf.2 hb
      rw [h] at hx
      cases hx

section

variable {n : Text} {bits : List Bit} (hbits : ∀ b ∈ bits, b.Fits n)

include hbits

/-- Every end tag of the name is that of a leaf. -/
theorem exists_leaf_of_endTag {a r : Text} (e : sourceOf bits = a ++ (endTagText n ++ r)) :
    ∃ front x back, bits = front ++ .leaf x :: back ∧ a = sourceOf front ++ x.front ∧
      r = sourceOf back := by
  induction bits generalizing a with
  | nil =>
      have hlen := congrArg List.length e
      simp [sourceOf, endTagText] at hlen
  | cons b bits ih =>
      have hrest := fun {a : Text} => ih (a := a) fun b hb => hbits b (List.mem_cons_of_mem _ hb)
      rw [sourceOf_cons] at e
      cases b with
      | text s =>
          have hs : Misses (endTagText n) s := hbits (.text s) List.mem_cons_self
          obtain ⟨a', rfl, e'⟩ := hs.exists_append e
          obtain ⟨front, x, back, rfl, rfl, rfl⟩ := hrest e'
          exact ⟨.text s :: front, x, back, rfl, by simp [sourceOf_cons, Bit.source], rfl⟩
      | leaf x =>
          have hx : x.IsBare n := hbits (.leaf x) List.mem_cons_self
          have hend : endTagText n ++ r = char '<' :: char '/' :: (n ++ char '>' :: r) := by
            simp [endTagText]
          rw [hend, Bit.source, Leaf.source, Leaf.front_eq, List.append_assoc] at e
          rcases exists_append_of_tag hx.lt_not_mem e with rfl | ⟨a₁, rfl, e₁⟩
          · -- a start tag is no end tag
            obtain ⟨c, t, hc, halpha⟩ := exists_cons_of_isElementName hx.tag.name
            have hhead := (List.cons.inj e).2
            rw [OpenTag.inside, hc] at hhead
            rw [(List.cons.inj hhead).1] at halpha
            exact absurd halpha (by decide)
          · rcases exists_append_of_endTagText hx.tag e₁ with rfl | ⟨a₂, rfl, e₂⟩
            · rw [List.nil_append, ← hend, hx.name] at e₁
              exact ⟨[], x, bits, rfl, by simp [sourceOf, Leaf.front_eq],
                (List.append_cancel_left e₁).symm⟩
            · rw [← hend] at e₂
              obtain ⟨front, y, back, rfl, rfl, rfl⟩ := hrest e₂
              exact ⟨.leaf x :: front, y, back, rfl,
                by simp [sourceOf_cons, Bit.source, Leaf.source, Leaf.front_eq], rfl⟩

/-- What stands between a `<` and the next end tag of the name is a leaf. -/
theorem exists_leaf_of_stretch {a u r : Text} (hu : char '<' ∉ u)
    (e : sourceOf bits = a ++ (char '<' :: u ++ (endTagText n ++ r))) :
    ∃ front x back, bits = front ++ .leaf x :: back ∧ a = sourceOf front ∧ x.IsBare n ∧
      char '<' :: u = x.front ∧ r = sourceOf back := by
  rw [← List.append_assoc] at e
  obtain ⟨front, x, back, rfl, e', rfl⟩ := exists_leaf_of_endTag hbits e
  have hx : x.IsBare n := hbits (.leaf x) (by simp)
  rw [Leaf.front_eq] at e'
  obtain ⟨rfl, rfl⟩ := append_cons_inj_of_not_mem_right hu hx.lt_not_mem e'
  exact ⟨front, x, back, rfl, rfl, hx, x.front_eq.symm, rfl⟩

/-- The text of a leaf stands only where that leaf is. -/
theorem exists_leaf_of_source {x : Leaf} (hx : x.IsBare n) {a r : Text}
    (e : sourceOf bits = a ++ x.source ++ r) :
    ∃ front back, bits = front ++ .leaf x :: back ∧ a = sourceOf front ∧ r = sourceOf back := by
  have e' : sourceOf bits
      = a ++ (char '<' :: (x.tag.inside ++ char '>' :: x.text) ++ (endTagText n ++ r)) := by
    rw [e, Leaf.source, Leaf.front_eq, hx.name]
    simp
  obtain ⟨front, y, back, rfl, rfl, hy, hfront, rfl⟩ :=
    exists_leaf_of_stretch hbits hx.lt_not_mem e'
  rw [← Leaf.front_eq] at hfront
  exact ⟨front, back, by rw [hx.front_inj hy hfront], rfl, rfl⟩

end

/-! ## The search outside the tree -/

theorem leftoversFrom_append (n s r : Text) :
    leftoversFrom n s.length (s ++ r) = leftoversFrom n 0 r := by
  induction s with
  | nil => rfl
  | cons c s ih => exact ih

section

variable {n : Text} {bits : List Bit} (hbits : ∀ b ∈ bits, b.Fits n)

include hbits

/-- Nothing is found in front of the leaves. -/
theorem leftoversFrom_text (hn : char '<' ∉ n) {s : Text} (hs : Misses (endTagText n) s) :
    leftoversFrom n 0 (s ++ sourceOf bits) = leftoversFrom n 0 (sourceOf bits) := by
  induction s with
  | nil => rfl
  | cons c s ih =>
      rw [List.cons_append, leftoversFrom]
      split
      · rename_i rest e
        obtain ⟨u, hu, hsource⟩ := eq_of_leftover e
        have hall : ∀ b ∈ Bit.text (c :: s) :: bits, b.Fits n := List.forall_mem_cons.2 ⟨hs, hbits⟩
        have hstretch : sourceOf (.text (c :: s) :: bits)
            = [] ++ (char '<' :: (n ++ u) ++ (endTagText n ++ rest)) := hsource
        have hlt : char '<' ∉ n ++ u := by simp [hn, hu]
        obtain ⟨front, x, back, hfront, hnil, -⟩ := exists_leaf_of_stretch hall hlt hstretch
        -- the leaf would be the first piece, which is a text
        cases front with
        | nil => cases (List.cons.inj hfront).1
        | cons b front =>
            rw [← (List.cons.inj hfront).1, sourceOf_cons, Bit.source] at hnil
            cases hnil
      · exact ih hs.of_cons

omit hbits in
theorem leftoversFrom_leaf {x : Leaf} (hx : x.IsBare n) (r : Text) :
    leftoversFrom n 0 (x.source ++ r) = x.source :: leftoversFrom n 0 r := by
  have hsource : x.source ++ r
      = char '<' :: (n ++ (x.tag.trailer ++ char '>' :: x.text ++ char '<' :: char '/' ::
          (n ++ char '>' :: r))) := by
    rw [Leaf.source, Leaf.front_eq, OpenTag.inside, hx.name]
    simp [endTagText]
  have hopen : after? ('<' :: n) (x.source ++ r)
      = some (x.tag.trailer ++ char '>' :: x.text ++ char '<' :: char '/' ::
          (n ++ char '>' :: r)) := by
    rw [hsource]
    exact after?_append ('<' :: n) _
  have hlt : ∀ c ∈ x.tag.trailer ++ char '>' :: x.text, (c != '<') = true := by
    refine forall_bne_of_not_mem fun hm => hx.lt_not_mem ?_
    rw [OpenTag.inside, List.append_assoc]
    exact List.mem_append_right _ hm
  have hclose : after? (endTagText n) ('<' :: char '/' :: (n ++ char '>' :: r)) = some r := by
    rw [show char '<' :: char '/' :: (n ++ char '>' :: r) = endTagText n ++ r by simp [endTagText]]
    exact after?_append _ _
  have hfound : ((after? ('<' :: n) (x.source ++ r)).bind fun t =>
      if (t.takeWhile (· != char '<')).elem (char '>')
          then after? (endTagText n) (t.dropWhile (· != char '<'))
      else none) = some r := by
    rw [hopen, Option.bind_some, takeWhile_append_cons _ hlt (by decide),
      dropWhile_append_cons _ hlt (by decide), hclose, if_pos (by simp)]
  obtain ⟨t, ht⟩ : ∃ t, x.source = char '<' :: t := ⟨_, by rw [Leaf.source, Leaf.front_eq]; rfl⟩
  rw [ht, List.cons_append] at hfound ⊢
  have hlen : (t ++ r).length + 1 - r.length = t.length + 1 := by
    rw [List.length_append]
    omega
  rw [leftoversFrom, hfound]
  simp only [hlen, Nat.add_sub_cancel, leftoversFrom_append]
  rw [List.take_succ_cons, List.take_left]

/-- The search outside the tree finds the leaves. -/
theorem leftovers_sourceOf (hn : char '<' ∉ n) :
    leftovers n (sourceOf bits) = (leavesOf bits).map Leaf.source := by
  rw [leftovers]
  induction bits with
  | nil => rfl
  | cons b bits ih =>
      have hmore : ∀ b ∈ bits, b.Fits n := fun b hb => hbits b (List.mem_cons_of_mem _ hb)
      have hrest := ih hmore
      rw [sourceOf_cons]
      cases b with
      | text s =>
          have hs : Misses (endTagText n) s := hbits (.text s) List.mem_cons_self
          exact (leftoversFrom_text hmore hn hs).trans hrest
      | leaf x =>
          have hx : x.IsBare n := hbits (.leaf x) List.mem_cons_self
          rw [Bit.source, leftoversFrom_leaf hx, hrest]
          rfl

end

/-! ## Replacing leaves -/

/-- The three parts of a match. -/
def Match.region (found : Match) : Region := ⟨found.start, found.inner, found.close⟩

section

variable {m : Type → Type} [Monad m] [LawfulMonad m] {g : Region → Text} {n : Text}

/-- The replacement that depends on the text of the element alone. -/
def textually (g : Region → Text) (found : Match) : m Text := pure (g found.region)

theorem outer_of_region {found : Match} {x : Leaf} (h : found.region = x.region) :
    found.part .outer = x.source := by
  rw [Match.part, Match.outer, show found.start = _ from congrArg Region.start h,
    show found.inner = _ from congrArg Region.inner h,
    show found.close = _ from congrArg Region.close h]
  rfl

/-- Whether all pieces fit and the outputs for the leaves hold no end tag of the name. -/
structure AreFit (n : Text) (g : Region → Text) (bits : List Bit) : Prop where
  fits : ∀ b ∈ bits, b.Fits n
  output : ∀ x ∈ leavesOf bits, Misses (endTagText n) (g x.region)

omit [LawfulMonad m] in
/-- A replacement leaves a text without its leaf alone. -/
theorem patchOne_of_not_mem {bits : List Bit} (hbits : AreFit n g bits) {x : Leaf}
    (hx : x.IsBare n) {found : Match} (hfound : found.region = x.region)
    (hmem : x ∉ leavesOf bits) :
    patchOne (textually g : Match → m Text) .outer (sourceOf bits) found
      = pure (sourceOf bits) := by
  have hnone : contains (sourceOf bits) x.source = false := by
    rw [contains_eq_false_iff]
    intro a b e
    obtain ⟨front, back, rfl, -⟩ := exists_leaf_of_source hbits.fits hx e
    exact hmem (mem_leavesOf.2 (by simp))
  rw [patchOne, outer_of_region hfound]
  simp [hnone]

/-- A replacement puts the output in the place of a leaf. -/
theorem patchOne_leaf {bits : List Bit} (hbits : AreFit n g bits) {x : Leaf} (hx : x.IsBare n)
    {found : Match} (hfound : found.region = x.region) (hmem : x ∈ leavesOf bits) :
    ∃ front back, bits = front ++ .leaf x :: back ∧
      patchOne (textually g : Match → m Text) .outer (sourceOf bits) found
        = pure (sourceOf (front ++ .text (g x.region) :: back)) := by
  have hcontains : contains (sourceOf bits) x.source = true := by
    obtain ⟨front, back, e⟩ := List.append_of_mem (mem_leavesOf.1 hmem)
    refine (contains_iff _ _).2 ⟨sourceOf front, sourceOf back, ?_⟩
    rw [e, sourceOf_append, sourceOf_cons, Bit.source, List.append_assoc]
  obtain ⟨⟨a, b⟩, hcut⟩ := Option.isSome_iff_exists.1 hcontains
  obtain ⟨front, back, hsplit, rfl, rfl⟩ := exists_leaf_of_source hbits.fits hx (eq_of_cut? hcut)
  refine ⟨front, back, hsplit, ?_⟩
  have hne : found.part .outer ≠ [] := by
    rw [outer_of_region hfound, Leaf.source, Leaf.front_eq]
    simp
  rw [← outer_of_region hfound] at hcut
  rw [patchOne_of_cut? hne hcut, textually, pure_bind, hfound, sourceOf_append, sourceOf_cons,
    Bit.source, List.append_assoc]

/-- What an output in the place of a leaf changes, and what it does not. -/
theorem AreFit.replace {front back : List Bit} {x : Leaf}
    (h : AreFit n g (front ++ .leaf x :: back)) :
    AreFit n g (front ++ .text (g x.region) :: back) ∧
      filledWith g (front ++ .text (g x.region) :: back) = filledWith g (front ++ .leaf x :: back) ∧
      (leavesOf (front ++ .leaf x :: back)).Perm
        (x :: leavesOf (front ++ .text (g x.region) :: back)) := by
  have hleaves : (leavesOf (front ++ .leaf x :: back)).Perm
      (x :: leavesOf (front ++ .text (g x.region) :: back)) := by
    rw [leavesOf_append, leavesOf_append]
    exact List.perm_middle
  refine ⟨⟨fun b hb => ?_, fun y hy => ?_⟩, ?_, hleaves⟩
  · rcases List.mem_append.1 hb with hb | hb
    · exact h.fits b (List.mem_append_left _ hb)
    · rcases List.mem_cons.1 hb with rfl | hb
      · exact h.output x (mem_leavesOf.2 (by simp))
      · exact h.fits b (by simp [hb])
  · exact h.output y (hleaves.mem_iff.2 (List.mem_cons_of_mem x hy))
  · rw [filledWith_append, filledWith_append]
    rfl

/-- However many replacements are made, the outputs are those of the leaves. -/
theorem patch_leaves {bits : List Bit} (hbits : AreFit n g bits) {ms : List Match}
    (hms : ∀ found ∈ ms, ∃ x : Leaf, x.IsBare n ∧ found.region = x.region) :
    ∃ after,
      patch (textually g : Match → m Text) .outer (sourceOf bits) ms = pure (sourceOf after) ∧
      AreFit n g after ∧ filledWith g after = filledWith g bits := by
  -- on the replacements still to be made: the pieces fit, and what they come to stays the same
  induction ms generalizing bits with
  | nil => exact ⟨bits, rfl, hbits, rfl⟩
  | cons found ms ih =>
      obtain ⟨x, hx, hfound⟩ := hms found List.mem_cons_self
      have hrest := fun {bits : List Bit} (h : AreFit n g bits) =>
        ih h fun y hy => hms y (List.mem_cons_of_mem _ hy)
      rw [patch_cons]
      by_cases hmem : x ∈ leavesOf bits
      · obtain ⟨front, back, rfl, hone⟩ := patchOne_leaf (m := m) hbits hx hfound hmem
        obtain ⟨hfit, hfilled, -⟩ := hbits.replace
        obtain ⟨after, hafter, hfit', hfilled'⟩ := hrest hfit
        exact ⟨after, by rw [hone, pure_bind, hafter], hfit', hfilled'.trans hfilled⟩
      · obtain ⟨after, hafter, hfit', hfilled'⟩ := hrest hbits
        exact ⟨after, by rw [patchOne_of_not_mem hbits hx hfound hmem, pure_bind, hafter], hfit',
          hfilled'⟩

/-- Replacements for all leaves, in any order, replace them all. -/
theorem patch_allLeaves {bits : List Bit} (hbits : AreFit n g bits) {ms : List Match}
    {xs : List Leaf} (hxs : xs.Perm (leavesOf bits))
    (hms : ms.map Match.region = xs.map Leaf.region) :
    patch (textually g : Match → m Text) .outer (sourceOf bits) ms = pure (filledWith g bits) := by
  -- the replacements still to be made are those of the leaves that are left, up to their order
  induction ms generalizing bits xs with
  | nil =>
      have hnil : xs = [] := List.map_eq_nil_iff.1 hms.symm
      rw [filledWith_eq_sourceOf g (List.perm_nil.1 (hnil ▸ hxs).symm)]
      rfl
  | cons found ms ih =>
      obtain ⟨x, xs, rfl, hfound, hms⟩ := List.map_eq_cons_iff.1 hms.symm
      have hmem : x ∈ leavesOf bits := hxs.mem_iff.1 List.mem_cons_self
      have hx : x.IsBare n := hbits.fits (.leaf x) (mem_leavesOf.1 hmem)
      obtain ⟨front, back, rfl, hone⟩ := patchOne_leaf (m := m) hbits hx hfound.symm hmem
      obtain ⟨hfit, hfilled, hleaves⟩ := hbits.replace
      rw [patch_cons, hone, pure_bind, ih hfit ((hxs.trans hleaves).cons_inv) hms.symm, hfilled]

end

end Stencil.Html
