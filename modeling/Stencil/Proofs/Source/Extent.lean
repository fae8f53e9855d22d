import Stencil.Proofs.Source.Rest
import Stencil.Proofs.Source.Scan

set_option autoImplicit false

/-! # The extent of an element

Where the region of an element ends, said without the counter and without the readers. Among the
tags behind a start tag, the end tag of the element is the first at which the end tags of its name
outnumber the start tags (`IsEndAmong`); the counter of `endMark?` holds how many more start tags
than end tags there have been. Scripts and style sheets end at the first text of an end tag
instead (`RawEndAt`). `EndsAt` lists the ways in which an element ends, and
`region?_eq_some_iff` says that a region is found exactly when there is a start tag, and that it
is then the contiguous piece of the source which these ways give.
-/

namespace Stencil

namespace Text

/-! ## Pieces of a text -/

/-- The piece of a text between two indices. -/
def slice (s : Text) (i j : Nat) : Text := (s.drop i).take (j - i)

theorem length_slice {s : Text} {i j : Nat} (h : j ≤ s.length) : (slice s i j).length = j - i := by
  rw [slice, List.length_take, List.length_drop]
  omega

theorem slice_self (s : Text) (i : Nat) : slice s i i = [] := by
  rw [slice, Nat.sub_self, List.take_zero]

theorem slice_eq_drop (s : Text) (i : Nat) : slice s i s.length = s.drop i := by
  rw [slice, ← List.length_drop, List.take_length]

theorem drop_eq_slice_append {i j : Nat} (s : Text) (h : i ≤ j) :
    s.drop i = slice s i j ++ s.drop j := by
  have hdrop : s.drop j = (s.drop i).drop (j - i) := by
    rw [List.drop_drop, Nat.add_sub_cancel' h]
  rw [slice, hdrop, List.take_append_drop]

theorem slice_eq_of_drop_eq {s front rest : Text} {i : Nat} (h : s.drop i = front ++ rest) :
    slice s i (i + front.length) = front ∧ s.drop (i + front.length) = rest := by
  rw [slice, ← List.drop_drop, h, Nat.add_sub_cancel_left, List.take_left, List.drop_left]
  exact ⟨rfl, rfl⟩

end Text

namespace Html

open Text

/-! ## The first place where a reader reads -/

theorem cutAt?_eq_some_iff {reader : Text → Option Text} (hreader : GoesOn reader)
    (hnil : reader [] = none) {s front found rest : Text} :
    cutAt? reader s = some (front, found, rest) ↔
      s = front ++ (found ++ rest) ∧ reader (found ++ rest) = some rest ∧
        ∀ a b, s = a ++ b → (reader b).isSome → front.length ≤ a.length := by
  constructor
  · intro h
    induction s generalizing front with
    | nil =>
        rw [cutAt?, hnil] at h
        cases h
    | cons c s ih =>
        rw [cutAt?] at h
        split at h
        · rename_i r hr
          cases h
          obtain ⟨t, ht⟩ := hreader _ _ hr
          have hfound : (c :: s).take ((c :: s).length - rest.length) = t := by
            rw [← ht, take_length_sub]
          rw [hfound, ht]
          exact ⟨rfl, hr, fun _ _ _ _ => Nat.zero_le _⟩
        · rename_i hc
          obtain ⟨⟨f, x, r⟩, hcut, e⟩ := Option.map_eq_some_iff.1 h
          cases e
          obtain ⟨rfl, hread, hfirst⟩ := ih hcut
          refine ⟨rfl, hread, fun a b hab hb => ?_⟩
          cases a with
          | nil =>
              rw [← show c :: (f ++ (found ++ rest)) = b from hab, hc] at hb
              cases hb
          | cons d a => exact Nat.succ_le_succ (hfirst a b (List.cons.inj hab).2 hb)
  · rintro ⟨rfl, hread, hfirst⟩
    have hne : found ++ rest ≠ [] := by
      intro e
      rw [e, hnil] at hread
      cases hread
    rw [cutAt?_append ?_ hread hne, take_length_sub]
    rintro a b rfl hb
    by_contra hsome
    have hlength := hfirst a (b ++ (found ++ rest)) (List.append_assoc _ _ _)
      (Option.isSome_iff_ne_none.2 hsome)
    rw [List.length_append] at hlength
    exact hb (List.length_eq_zero_iff.1 (by omega))

/-! ## The start tag -/

/-- The start tag that counts at an index of a source stands between this index and another. -/
def StartsAt (source : Text) (a b : Nat) : Prop :=
  ∃ run body, IsLongestStartTag (source.drop a) run body (source.drop b) ∧
    slice source a b = char '<' :: (run ++ (body ++ [char '>']))

theorem startText?_drop_iff {source start rest : Text} {a : Nat} :
    startText? (source.drop a) = some (start, rest) ↔
      ∃ b, a < b ∧ b ≤ source.length ∧ StartsAt source a b ∧ start = slice source a b ∧
        rest = source.drop b := by
  rw [startText?_eq_some_iff]
  constructor
  · rintro ⟨run, body, hstart, rfl⟩
    have hsource : source.drop a = char '<' :: (run ++ (body ++ [char '>'])) ++ rest := by
      rw [hstart.source]
      simp
    have hlength := congrArg List.length hsource
    obtain ⟨hslice, hrest⟩ := slice_eq_of_drop_eq hsource
    rw [List.length_drop, List.length_append, List.length_cons] at hlength
    refine ⟨_, ?_, ?_, ⟨run, body, hrest.symm ▸ hstart, hslice⟩, hslice.symm, hrest.symm⟩
    · rw [List.length_cons]
      omega
    · rw [List.length_cons]
      omega
  · rintro ⟨b, -, -, ⟨run, body, hstart, hslice⟩, rfl, rfl⟩
    exact ⟨run, body, hstart, hslice⟩

/-! ## The end tag among the tags -/

/-- Whether a tag opens an element of a name. -/
def Mark.opens (name : Text) (mark : Mark) : Bool :=
  lower mark.name == name && !mark.closing && !mark.selfClosing

/-- Whether a tag closes an element of a name. -/
def Mark.closes (name : Text) (mark : Mark) : Bool := lower mark.name == name && mark.closing

/-- Among tags, the first at which the end tags of a name outnumber the start tags, when so many
elements are open in front of them. -/
def IsEndAmong (name : Text) (depth : Nat) (ms : List Mark) (mark : Mark) : Prop :=
  ∃ before behind, ms = before ++ mark :: behind ∧
    (before ++ [mark]).countP (Mark.opens name) + depth
      < (before ++ [mark]).countP (Mark.closes name) ∧
    ∀ part, part <+: before →
      part.countP (Mark.closes name) ≤ part.countP (Mark.opens name) + depth

section

variable {name : Text} {depth : Nat} {m mark : Mark} {ms : List Mark}

theorem isEndAmong_nil : ¬ IsEndAmong name depth [] mark := by
  rintro ⟨before, behind, h, -⟩
  simp at h

/-- A tag at which the end tags outnumber the start tags is the first such one. -/
theorem isEndAmong_cons_of_lt
    (h : [m].countP (Mark.opens name) + depth < [m].countP (Mark.closes name)) :
    IsEndAmong name depth (m :: ms) mark ↔ m = mark := by
  constructor
  · rintro ⟨before, behind, e, -, hpre⟩
    cases before with
    | nil => exact (List.cons.inj e).1
    | cons x before =>
        -- a later tag would have this one in a part where the end tags do not outnumber
        obtain ⟨rfl, -⟩ := List.cons.inj e
        exact absurd (hpre [m] ⟨before, rfl⟩) (Nat.not_le.2 h)
  · rintro rfl
    refine ⟨[], ms, rfl, h, fun part hpart => ?_⟩
    rw [List.prefix_nil.1 hpart]
    exact Nat.zero_le _

/-- Behind any other tag the count goes on from what that tag leaves open. -/
theorem isEndAmong_cons {depth' : Nat}
    (h : [m].countP (Mark.opens name) + depth = [m].countP (Mark.closes name) + depth') :
    IsEndAmong name depth (m :: ms) mark ↔ IsEndAmong name depth' ms mark := by
  have hcount : ∀ (p : Mark → Bool) l, (m :: l).countP p = [m].countP p + l.countP p :=
    fun p l => by rw [← List.countP_append, List.singleton_append]
  have hopens := hcount (Mark.opens name)
  have hcloses := hcount (Mark.closes name)
  constructor
  · rintro ⟨before, behind, e, hend, hpre⟩
    cases before with
    | nil =>
        obtain ⟨rfl, -⟩ := List.cons.inj e
        rw [List.nil_append] at hend
        omega
    | cons x before =>
        obtain ⟨rfl, rfl⟩ := List.cons.inj e
        rw [List.cons_append, hopens (before ++ _), hcloses (before ++ _)] at hend
        refine ⟨before, behind, rfl, by omega, fun part hpart => ?_⟩
        have hle := hpre (m :: part) (List.cons_prefix_cons.2 ⟨rfl, hpart⟩)
        rw [hopens part, hcloses part] at hle
        omega
  · rintro ⟨before, behind, rfl, hend, hpre⟩
    refine ⟨m :: before, behind, rfl, ?_, fun part hpart => ?_⟩
    · rw [List.cons_append, hopens (before ++ _), hcloses (before ++ _)]
      omega
    · cases part with
      | nil => exact Nat.zero_le _
      | cons x part =>
          obtain ⟨rfl, htail⟩ := List.cons_prefix_cons.1 hpart
          have hle := hpre part htail
          rw [hopens part, hcloses part]
          omega

/-- The counter stops at the tag at which the end tags outnumber the start tags. -/
theorem endMark?_eq_some_iff :
    endMark? name depth ms = some mark ↔ IsEndAmong name depth ms mark := by
  fun_induction endMark? name depth ms with
  | case1 depth => exact iff_of_false (by simp) isEndAmong_nil
  | case2 depth m rest hname ih =>
      rw [ih, isEndAmong_cons]
      simp [Mark.opens, Mark.closes, beq_eq_false_iff_ne.2 hname]
  | case3 m rest hname hclosing =>
      rw [Option.some.injEq, isEndAmong_cons_of_lt]
      simp [Mark.opens, Mark.closes, not_not.1 hname, hclosing]
  | case4 m rest hname hclosing depth ih =>
      rw [ih, isEndAmong_cons]
      simp [Mark.opens, Mark.closes, not_not.1 hname, hclosing, Nat.add_comm]
  | case5 depth m rest hname hclosing hself ih =>
      rw [ih, isEndAmong_cons]
      simp [Mark.opens, Mark.closes, hclosing, hself]
  | case6 depth m rest hname hclosing hself ih =>
      rw [ih, isEndAmong_cons]
      simp [Mark.opens, Mark.closes, not_not.1 hname, hclosing, hself, Nat.add_comm]

theorem endMark?_map_shift (n : Nat) :
    endMark? name depth (ms.map (Mark.shift n)) = (endMark? name depth ms).map (Mark.shift n) := by
  fun_induction endMark? name depth ms with
  | case1 depth => rfl
  | case2 depth m rest hname ih => simpa [endMark?, Mark.shift, hname] using ih
  | case3 m rest hname hclosing => simp [endMark?, Mark.shift, not_not.1 hname, hclosing]
  | case4 m rest hname hclosing depth ih =>
      simpa [endMark?, Mark.shift, not_not.1 hname, hclosing] using ih
  | case5 depth m rest hname hclosing hself ih =>
      simpa [endMark?, Mark.shift, not_not.1 hname, hclosing, hself] using ih
  | case6 depth m rest hname hclosing hself ih =>
      simpa [endMark?, Mark.shift, not_not.1 hname, hclosing, hself] using ih

end

/-- The end tag of an element of a name whose start tag ends at an index of a source. -/
def IsOwnEnd (name source : Text) (b : Nat) (mark : Mark) : Prop :=
  ∃ ms, Meets b (source.drop b) ms ∧ IsEndAmong name 0 ms mark

theorem isOwnEnd_iff {name source : Text} {b : Nat} {mark : Mark} :
    IsOwnEnd name source b mark ↔
      ∃ m, endMark? name 0 (marks (source.drop b)) = some m ∧ m.shift b = mark := by
  rw [← Option.map_eq_some_iff, ← endMark?_map_shift, marks, ← marksFrom_add, Nat.add_zero,
    endMark?_eq_some_iff]
  constructor
  · rintro ⟨ms, hmet, hend⟩
    rwa [← meets_iff.1 hmet]
  · exact fun h => ⟨_, meets_iff.2 rfl, h⟩

/-- An end tag stands behind the start tag, and within the source. -/
theorem IsOwnEnd.bounds {name source : Text} {b : Nat} {mark : Mark}
    (h : IsOwnEnd name source b mark) (hb : b ≤ source.length) :
    b ≤ mark.first ∧ mark.first < mark.stop ∧ mark.stop ≤ source.length := by
  obtain ⟨ms, hmet, before, behind, rfl, -⟩ := h
  have hbounds := hmet.bounds mark (by simp)
  rw [List.length_drop] at hbounds
  omega

/-! ## The end tag behind raw text -/

/-- The text of an end tag of a name, in any case, with blanks in front of its `>`. -/
def IsRawEnd (name t : Text) : Prop :=
  ∃ n blanks, t = [char '<', char '/'] ++ (n ++ (blanks ++ [char '>'])) ∧
    List.Forall₂ (fun letter c => RawText.isCaseOf letter c = true) name n ∧
    ∀ c ∈ blanks, isBlank c = true

theorem afterName?_eq_some_iff {name s rest : Text} :
    RawText.afterName? name s = some rest ↔
      ∃ n, s = n ++ rest ∧
        List.Forall₂ (fun letter c => RawText.isCaseOf letter c = true) name n := by
  induction name generalizing s with
  | nil =>
      rw [RawText.afterName?, Option.some.injEq]
      constructor
      · rintro rfl
        exact ⟨[], rfl, .nil⟩
      · rintro ⟨n, rfl, hn⟩
        cases hn
        rfl
  | cons p ps ih =>
      cases s with
      | nil =>
          refine iff_of_false (by simp [RawText.afterName?]) ?_
          rintro ⟨n, hs, hn⟩
          cases hn
          cases hs
      | cons c s =>
          rw [RawText.afterName?, Option.ite_none_right_eq_some, ih]
          constructor
          · rintro ⟨hc, n, rfl, hn⟩
            exact ⟨c :: n, rfl, .cons hc hn⟩
          · rintro ⟨_, hs, hn⟩
            cases hn with
            | cons hc hn =>
                obtain ⟨rfl, rfl⟩ := List.cons.inj hs
                exact ⟨hc, _, rfl, hn⟩

theorem afterClose?_eq_some_iff {s rest : Text} :
    RawText.afterClose? s = some rest ↔
      ∃ blanks, s = blanks ++ char '>' :: rest ∧ ∀ c ∈ blanks, isBlank c = true := by
  rw [RawText.afterClose?, after?_eq_some_iff]
  constructor
  · intro h
    refine ⟨s.takeWhile isBlank, ?_, fun c hc => List.mem_takeWhile_imp hc⟩
    rw [← List.singleton_append, ← h, trimLeft, List.takeWhile_append_dropWhile]
  · rintro ⟨blanks, rfl, hblanks⟩
    exact dropWhile_append_cons rest hblanks (by decide)

theorem afterEndTag?_eq_some_iff {name s rest : Text} :
    RawText.afterEndTag? name s = some rest ↔ ∃ t, IsRawEnd name t ∧ s = t ++ rest := by
  simp only [RawText.afterEndTag?, Option.bind_eq_bind, Option.bind_eq_some_iff,
    after?_eq_some_iff, afterName?_eq_some_iff, afterClose?_eq_some_iff]
  constructor
  · rintro ⟨_, rfl, _, ⟨n, rfl, hn⟩, blanks, rfl, hblanks⟩
    exact ⟨_, ⟨n, blanks, rfl, hn, hblanks⟩, by simp⟩
  · rintro ⟨_, ⟨n, blanks, rfl, hn, hblanks⟩, rfl⟩
    exact ⟨n ++ (blanks ++ char '>' :: rest), by simp, _, ⟨n, rfl, hn⟩, blanks, rfl, hblanks⟩

/-- The text of an end tag of a name stands between two indices, behind a start tag that ends at
an index. -/
structure RawEndAt (name source : Text) (b c d : Nat) : Prop where
  start_le : b ≤ c
  le_stop : c ≤ d
  stop_le : d ≤ source.length
  isRawEnd : IsRawEnd name (slice source c d)

section

variable {name source : Text} {b : Nat}

theorem rawEndAt_of_drop_eq {front t rest : Text} (hb : b ≤ source.length)
    (h : source.drop b = front ++ (t ++ rest)) (ht : IsRawEnd name t) :
    RawEndAt name source b (b + front.length) (b + front.length + t.length) := by
  have hlength := congrArg List.length h
  rw [List.length_drop, List.length_append, List.length_append] at hlength
  refine ⟨by omega, by omega, by omega, ?_⟩
  rwa [(slice_eq_of_drop_eq (slice_eq_of_drop_eq h).2).1]

/-- The end tag is read where it stands. -/
theorem RawEndAt.afterEndTag?_eq {c d : Nat} (h : RawEndAt name source b c d) :
    RawText.afterEndTag? name (source.drop c) = some (source.drop d) :=
  afterEndTag?_eq_some_iff.2 ⟨_, h.isRawEnd, drop_eq_slice_append source h.le_stop⟩

theorem cutAt?_drop_eq_some_iff {inner close rest : Text} (hb : b ≤ source.length) :
    cutAt? (RawText.afterEndTag? name) (source.drop b) = some (inner, close, rest) ↔
      ∃ c d, RawEndAt name source b c d ∧ (∀ {c' d'}, RawEndAt name source b c' d' → c ≤ c') ∧
        inner = slice source b c ∧ close = slice source c d ∧ rest = source.drop d := by
  have hgoes : GoesOn (RawText.afterEndTag? name) := by
    intro s r h
    obtain ⟨t, -, rfl⟩ := afterEndTag?_eq_some_iff.1 h
    exact ⟨t, rfl⟩
  rw [cutAt?_eq_some_iff hgoes rfl]
  constructor
  · rintro ⟨hsource, hread, hfirst⟩
    obtain ⟨t, ht, hclose⟩ := afterEndTag?_eq_some_iff.1 hread
    obtain rfl := List.append_cancel_right hclose
    obtain ⟨hinner, hbehind⟩ := slice_eq_of_drop_eq hsource
    obtain ⟨hclose, hrest⟩ := slice_eq_of_drop_eq hbehind
    refine ⟨_, _, rawEndAt_of_drop_eq hb hsource ht, fun {c' d'} hend => ?_, hinner.symm,
      hclose.symm, hrest.symm⟩
    have hle := hfirst _ _ (drop_eq_slice_append source hend.start_le)
      (by rw [hend.afterEndTag?_eq]; rfl)
    have hbefore := hend.start_le
    have hwithin := hend.le_stop.trans hend.stop_le
    rw [length_slice hwithin] at hle
    omega
  · rintro ⟨c, d, hend, hfirst, rfl, rfl, rfl⟩
    rw [← drop_eq_slice_append source hend.le_stop]
    refine ⟨drop_eq_slice_append source hend.start_le, hend.afterEndTag?_eq,
      fun front behind hs hread => ?_⟩
    obtain ⟨r, hr⟩ := Option.isSome_iff_exists.1 hread
    obtain ⟨t, ht, rfl⟩ := afterEndTag?_eq_some_iff.1 hr
    have hle := hfirst (rawEndAt_of_drop_eq hb hs ht)
    rw [length_slice (hend.le_stop.trans hend.stop_le)]
    omega

theorem cutAt?_drop_eq_none_iff (hb : b ≤ source.length) :
    cutAt? (RawText.afterEndTag? name) (source.drop b) = none ↔
      ∀ c d, ¬ RawEndAt name source b c d := by
  rw [cutAt?_eq_none_iff]
  constructor
  · intro h c d hend
    have hnone := h (source.drop c) ⟨_, (drop_eq_slice_append source hend.start_le).symm⟩
    rw [hend.afterEndTag?_eq] at hnone
    cases hnone
  · rintro h behind ⟨front, hs⟩
    refine Option.eq_none_iff_forall_ne_some.2 fun r hr => ?_
    obtain ⟨t, ht, rfl⟩ := afterEndTag?_eq_some_iff.1 hr
    exact h _ _ (rawEndAt_of_drop_eq hb hs.symm ht)

end

/-! ## Regions -/

/-- Whether an element is its start tag alone: by its name, or by the slash at its end. -/
def IsAlone (name source : Text) (a b : Nat) : Prop :=
  name ∈ voidNames ∨ [char '/', char '>'] <:+ slice source a b

/-- Where the end tag of an element stands whose start tag stands between two indices. -/
inductive EndsAt (name source : Text) (a b : Nat) : Nat → Nat → Prop
  | alone (h : IsAlone name source a b) : EndsAt name source a b b b
  | raw {c d : Nat} (hopen : ¬ IsAlone name source a b) (hname : name ∈ RawText.names)
      (hend : RawEndAt name source b c d)
      (hfirst : ∀ {c' d'}, RawEndAt name source b c' d' → c ≤ c') : EndsAt name source a b c d
  | rawToEnd (hopen : ¬ IsAlone name source a b) (hname : name ∈ RawText.names)
      (hnone : ∀ c d, ¬ RawEndAt name source b c d) :
      EndsAt name source a b source.length source.length
  | closed {mark : Mark} (hopen : ¬ IsAlone name source a b) (hname : name ∉ RawText.names)
      (hend : IsOwnEnd name source b mark) : EndsAt name source a b mark.first mark.stop
  | neverClosed (hopen : ¬ IsAlone name source a b) (hname : name ∉ RawText.names)
      (hnone : ∀ mark, ¬ IsOwnEnd name source b mark) : EndsAt name source a b b b

section

variable {name source : Text} {a b c d : Nat}

theorem isAlone_iff : (voidNames.elem name || endsWith (slice source a b) ['/', '>']) = true ↔
    IsAlone name source a b := by
  rw [Bool.or_eq_true, List.elem_eq_mem, decide_eq_true_iff, endsWith_iff, IsAlone]

/-- Every element ends somewhere. -/
theorem exists_endsAt (name source : Text) (a : Nat) {b : Nat} (hb : b ≤ source.length) :
    ∃ c d, EndsAt name source a b c d := by
  by_cases hopen : IsAlone name source a b
  · exact ⟨b, b, .alone hopen⟩
  by_cases hname : name ∈ RawText.names
  · cases hcut : cutAt? (RawText.afterEndTag? name) (source.drop b) with
    | none => exact ⟨_, _, .rawToEnd hopen hname ((cutAt?_drop_eq_none_iff hb).1 hcut)⟩
    | some found =>
        obtain ⟨c, d, hend, hfirst, -⟩ := (cutAt?_drop_eq_some_iff hb).1 hcut
        exact ⟨c, d, .raw hopen hname hend hfirst⟩
  · by_cases hend : ∃ mark, IsOwnEnd name source b mark
    · obtain ⟨mark, hend⟩ := hend
      exact ⟨_, _, .closed hopen hname hend⟩
    · exact ⟨b, b, .neverClosed hopen hname (not_exists.1 hend)⟩

/-- The end tag of an element stands behind its start tag, and within the source. -/
theorem EndsAt.bounds (h : EndsAt name source a b c d) (hb : b ≤ source.length) :
    b ≤ c ∧ c ≤ d ∧ d ≤ source.length := by
  cases h with
  | alone h => exact ⟨le_rfl, le_rfl, hb⟩
  | raw hopen hname hend hfirst => exact ⟨hend.start_le, hend.le_stop, hend.stop_le⟩
  | rawToEnd hopen hname hnone => exact ⟨hb, le_rfl, le_rfl⟩
  | closed hopen hname hend =>
      obtain ⟨hfirst, hstop, hle⟩ := hend.bounds hb
      exact ⟨hfirst, hstop.le, hle⟩
  | neverClosed hopen hname hnone => exact ⟨le_rfl, le_rfl, hb⟩

/-- An element that can have tags inside ends with its start tag only if nothing closes it. -/
theorem EndsAt.eq_and_eq_iff (h : EndsAt name source a b c d) (hb : b ≤ source.length)
    (hopen : ¬ IsAlone name source a b) (hname : name ∉ RawText.names) :
    c = b ∧ d = b ↔ ∀ mark, ¬ IsOwnEnd name source b mark := by
  cases h with
  | alone h => exact absurd h hopen
  | raw _ hraw => exact absurd hraw hname
  | rawToEnd _ hraw => exact absurd hraw hname
  | @closed mark _ _ hend =>
      obtain ⟨hfirst, hstop, -⟩ := hend.bounds hb
      exact iff_of_false (by omega) fun hnone => hnone mark hend
  | neverClosed _ _ hnone => exact iff_of_true ⟨rfl, rfl⟩ hnone

/-- The region of an element goes to where it ends. -/
theorem region?_of_endsAt (hab : a < b) (hb : b ≤ source.length) (hstart : StartsAt source a b)
    (h : EndsAt name source a b c d) :
    region? name (source.drop a) = some ⟨slice source a b, slice source b c, slice source c d⟩ := by
  rw [region?, startText?_drop_iff.2 ⟨b, hab, hb, hstart, rfl, rfl⟩, Option.map_some]
  simp only
  cases h with
  | alone h => rw [if_pos (isAlone_iff.2 h), slice_self]
  | raw hopen hname hend hfirst =>
      have hcut := (cutAt?_drop_eq_some_iff hb).2 ⟨_, _, hend, hfirst, rfl, rfl, rfl⟩
      rw [if_neg (isAlone_iff.not.2 hopen), if_pos (List.elem_iff.2 hname), hcut]
  | rawToEnd hopen hname hnone =>
      rw [if_neg (isAlone_iff.not.2 hopen), if_pos (List.elem_iff.2 hname),
        (cutAt?_drop_eq_none_iff hb).2 hnone, slice_self]
      simp only [slice_eq_drop]
  | closed hopen hname hend =>
      -- the marks of a region count from the end of the start tag
      obtain ⟨m, hm, rfl⟩ := isOwnEnd_iff.1 hend
      rw [if_neg (isAlone_iff.not.2 hopen), if_neg (List.elem_iff.not.2 hname), hm]
      simp only [Mark.shift, slice, Nat.add_sub_cancel_left, Nat.add_sub_add_left, List.drop_drop]
  | neverClosed hopen hname hnone =>
      have hm : endMark? name 0 (marks (source.drop b)) = none :=
        Option.eq_none_iff_forall_ne_some.2 fun m hm => hnone _ (isOwnEnd_iff.2 ⟨m, hm, rfl⟩)
      rw [if_neg (isAlone_iff.not.2 hopen), if_neg (List.elem_iff.not.2 hname), hm, slice_self]

/-- A region is found exactly where a start tag stands. It is the piece of the source from this
tag to where the element ends, in three parts. -/
theorem region?_eq_some_iff {region : Region} :
    region? name (source.drop a) = some region ↔
      ∃ b c d, (a < b ∧ b ≤ c ∧ c ≤ d ∧ d ≤ source.length) ∧
        region = ⟨slice source a b, slice source b c, slice source c d⟩ ∧
        StartsAt source a b ∧ EndsAt name source a b c d ∧
        (¬ IsAlone name source a b → name ∉ RawText.names →
          (c = b ∧ d = b ↔ ∀ mark, ¬ IsOwnEnd name source b mark)) := by
  constructor
  · intro h
    obtain ⟨⟨start, rest⟩, hread, -⟩ := Option.map_eq_some_iff.1 h
    obtain ⟨b, hab, hb, hstart, rfl, rfl⟩ := startText?_drop_iff.1 hread
    obtain ⟨c, d, hend⟩ := exists_endsAt name source a hb
    rw [region?_of_endsAt hab hb hstart hend] at h
    exact ⟨b, c, d, ⟨hab, hend.bounds hb⟩, (Option.some.inj h).symm, hstart, hend,
      hend.eq_and_eq_iff hb⟩
  · rintro ⟨b, c, d, ⟨hab, hbc, hcd, hd⟩, rfl, hstart, hend, -⟩
    exact region?_of_endsAt hab (hbc.trans (hcd.trans hd)) hstart hend

/-- Neither a tag in a comment nor a `>` in quotes is counted, and an end tag in any case is. -/
example : region? "div".text
    ("<p><div a='>'><!--</div>-->x<div>y</div></DIV >z</div>".text.drop 3)
      = some ⟨"<div a='>'>".text, "<!--</div>-->x<div>y</div>".text, "</DIV >".text⟩ := by
  decide

end

end Html

end Stencil
