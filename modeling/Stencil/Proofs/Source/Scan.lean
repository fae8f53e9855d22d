import Stencil.Proofs.Document.Region

set_option autoImplicit false

/-! # The tags of a text

What the readers of tags find, said without the readers. The body of a tag is told by a grammar
(`IsTagBody`), and the start tag, the tags and the comments at the front of a text by the shape
of their text. A search goes from the left to the right, and what it has found it does not look
at again (`Meets`).

Each reader finds exactly what is told of it: `cutTagEnd?_eq_some_iff`, `startText?_eq_some_iff`,
`readMark?_eq_some_iff`, `commentLength?_eq_some_iff` and, for the search as a whole,
`meets_iff`.
-/

namespace Stencil.Html

open Text

/-! ## The body of a tag -/

/-- What may stand between the name of a tag and its `>`: every quote that opens is closed, and
`>` stands between quotes only. -/
inductive IsTagBody : Text → Prop
  | nil : IsTagBody []
  | char {c : CodePoint} {s : Text} (hend : c ≠ '>') (hquote : StartTag.isQuote c = false)
      (rest : IsTagBody s) : IsTagBody (c :: s)
  | quoted {q : CodePoint} {v s : Text} (hquote : StartTag.isQuote q = true) (hvalue : q ∉ v)
      (rest : IsTagBody s) : IsTagBody (q :: (v ++ q :: s))

theorem isQuote_eq_false_iff {c : CodePoint} :
    StartTag.isQuote c = false ↔ c ≠ '"' ∧ c ≠ '\'' := by
  rw [StartTag.isQuote, Bool.or_eq_false_iff, beq_eq_false_iff_ne, beq_eq_false_iff_ne, and_comm]

theorem IsTagBody.isPassedOver {s : Text} (h : IsTagBody s) : IsPassedOver s := by
  induction h with
  | nil =>
      intro r
      simp
  | @char c s hend hquote _ ih =>
      have hc : IsPassedOver [c] := by
        refine isPassedOver_of_forall fun x hx => ?_
        rw [List.mem_singleton.1 hx]
        exact ⟨hend, isQuote_eq_false_iff.1 hquote⟩
      exact hc.append ih
  | quoted hquote hvalue _ ih => simpa using (isPassedOver_quoted hquote hvalue).append ih

/-- The body of a tag from a place in it: inside quotes, those quotes are closed first. -/
def IsBodyFrom : Option CodePoint → Text → Prop
  | none, s => IsTagBody s
  | some q, s => ∃ v w, s = v ++ q :: w ∧ q ∉ v ∧ IsTagBody w

theorem isBodyFrom_of_cutTagEnd? {quote : Option CodePoint} {s body rest : Text}
    (h : cutTagEnd? quote s = some (body, rest)) :
    s = body ++ char '>' :: rest ∧ IsBodyFrom quote body := by
  -- a body may begin in quotes here, since the search looks at one character after the other
  induction s generalizing quote body with
  | nil => cases h
  | cons c s ih =>
      cases quote with
      | some q =>
          rw [cutTagEnd?, Option.map_eq_some_iff] at h
          obtain ⟨⟨front, r⟩, hcut, e⟩ := h
          obtain ⟨rfl, rfl⟩ := Prod.mk.inj e
          obtain ⟨rfl, hbody⟩ := ih hcut
          refine ⟨rfl, ?_⟩
          by_cases hc : c = q
          · rw [if_pos hc] at hbody
            exact ⟨[], front, by rw [hc]; rfl, List.not_mem_nil, hbody⟩
          · rw [if_neg hc] at hbody
            obtain ⟨v, w, rfl, hv, hw⟩ := hbody
            exact ⟨c :: v, w, rfl, by simp [Ne.symm hc, hv], hw⟩
      | none =>
          rw [cutTagEnd?] at h
          split at h
          · rename_i hend
            obtain ⟨rfl, rfl⟩ := Prod.mk.inj (Option.some.inj h)
            exact ⟨by rw [hend]; rfl, .nil⟩
          · rename_i hend
            obtain ⟨⟨front, r⟩, hcut, e⟩ := Option.map_eq_some_iff.1 h
            obtain ⟨rfl, rfl⟩ := Prod.mk.inj e
            obtain ⟨rfl, hbody⟩ := ih hcut
            refine ⟨rfl, ?_⟩
            cases hquote : StartTag.isQuote c with
            | false =>
                have hc := isQuote_eq_false_iff.1 hquote
                rw [if_neg (by simpa using hc)] at hbody
                exact .char hend hquote hbody
            | true =>
                rw [if_pos (by simpa [StartTag.isQuote, or_comm] using hquote)] at hbody
                obtain ⟨v, w, rfl, hv, hw⟩ := hbody
                exact .quoted hquote hv hw

/-- The end of a tag is the first `>` behind a body. -/
theorem cutTagEnd?_eq_some_iff {s body rest : Text} :
    cutTagEnd? none s = some (body, rest) ↔ s = body ++ char '>' :: rest ∧ IsTagBody body := by
  constructor
  · exact isBodyFrom_of_cutTagEnd?
  · rintro ⟨rfl, hbody⟩
    rw [hbody.isPassedOver]
    simp [cutTagEnd?]

/-! ## Start tags -/

/-- A start tag at the front of a text: a run that is not empty, a body, and what follows its
`>`. -/
structure IsStartTag (s run body rest : Text) : Prop where
  source : s = char '<' :: (run ++ (body ++ char '>' :: rest))
  run_ne_nil : run ≠ []
  chars : ∀ c ∈ run, isRunChar c = true
  isTagBody : IsTagBody body

/-- The start tag that counts at the front of a text is the one with the longest run. -/
structure IsLongestStartTag (s run body rest : Text) : Prop extends IsStartTag s run body rest where
  longest : ∀ {other body' rest'}, IsStartTag s other body' rest' → other.length ≤ run.length

/-- A start tag is known by the length of its run. -/
theorem isStartTag_iff {s run body rest : Text} :
    IsStartTag ('<' :: s) run body rest ↔
      run ≠ [] ∧ (∀ c ∈ run, isRunChar c = true) ∧ s.take run.length = run ∧
        cutTagEnd? none (s.drop run.length) = some (body, rest) := by
  rw [cutTagEnd?_eq_some_iff]
  constructor
  · rintro ⟨hs, hne, hrun, hbody⟩
    obtain rfl := (List.cons.inj hs).2
    exact ⟨hne, hrun, List.take_left, List.drop_left, hbody⟩
  · rintro ⟨hne, hrun, htake, hdrop, hbody⟩
    refine ⟨?_, hne, hrun, hbody⟩
    have hparts := List.take_append_drop run.length s
    rw [htake, hdrop] at hparts
    rw [hparts]

theorem startTextFrom?_eq_some_iff {s start rest : Text} {k : Nat} (hk : k ≤ s.length)
    (hchars : ∀ c ∈ s.take k, isRunChar c = true) :
    startTextFrom? s k = some (start, rest) ↔
      ∃ run body, IsStartTag ('<' :: s) run body rest ∧ run.length ≤ k ∧
        start = char '<' :: (run ++ (body ++ [char '>'])) ∧
        ∀ other body' rest', IsStartTag ('<' :: s) other body' rest' → other.length ≤ k →
          other.length ≤ run.length := by
  induction k with
  | zero =>
      refine iff_of_false (by simp [startTextFrom?]) ?_
      rintro ⟨run, body, hstart, hlen, -⟩
      exact hstart.run_ne_nil (List.length_eq_zero_iff.1 (Nat.le_zero.1 hlen))
  | succ k ih =>
      have htake : (s.take (k + 1)).length = k + 1 := List.length_take_of_le hk
      rw [startTextFrom?]
      cases hcut : cutTagEnd? none (s.drop (k + 1)) with
      | some found =>
          obtain ⟨attrs, r⟩ := found
          have hfull : IsStartTag ('<' :: s) (s.take (k + 1)) attrs r := by
            rw [isStartTag_iff, htake]
            refine ⟨fun e => ?_, hchars, rfl, hcut⟩
            rw [e] at htake
            cases htake
          simp only [Option.some.injEq, Prod.mk.injEq]
          constructor
          · rintro ⟨rfl, rfl⟩
            exact ⟨_, attrs, hfull, htake.le, by simp, fun _ _ _ _ h => h.trans htake.ge⟩
          · rintro ⟨run, body, hstart, hlen, rfl, hlongest⟩
            have hlength : run.length = k + 1 :=
              Nat.le_antisymm hlen (htake ▸ hlongest _ _ _ hfull htake.le)
            obtain ⟨-, -, hrun, hbody⟩ := isStartTag_iff.1 hstart
            rw [hlength] at hrun hbody
            obtain ⟨rfl, rfl⟩ := Prod.mk.inj (Option.some.inj (hcut.symm.trans hbody))
            exact ⟨by simp [hrun], rfl⟩
      | none =>
          -- no start tag has a run of this length, so a shorter run is as good
          have hshorter : ∀ {run body rest}, IsStartTag ('<' :: s) run body rest →
              (run.length ≤ k + 1 ↔ run.length ≤ k) := by
            intro run body rest hstart
            have hne : run.length ≠ k + 1 := by
              intro hlength
              have hbody := (isStartTag_iff.1 hstart).2.2.2
              rw [hlength, hcut] at hbody
              cases hbody
            omega
          rw [ih (by omega) fun c hc => hchars c (List.take_subset_take_left _ (Nat.le_succ k) hc)]
          refine exists_congr fun run => exists_congr fun body => and_congr_right fun hstart => ?_
          rw [hshorter hstart]
          refine and_congr_right fun _ => and_congr_right fun _ => ?_
          exact forall_congr' fun other => forall_congr' fun body' => forall_congr' fun rest' =>
            forall_congr' fun h => by rw [hshorter h]

/-- A start tag is read as the one with the longest run. -/
theorem startText?_eq_some_iff {s start rest : Text} :
    startText? s = some (start, rest) ↔
      ∃ run body, IsLongestStartTag s run body rest ∧
          start = char '<' :: (run ++ (body ++ [char '>'])) := by
  unfold startText?
  split
  · rename_i s
    have hrun : ∀ {run body rest}, IsStartTag ('<' :: s) run body rest →
        run.length ≤ (s.takeWhile isRunChar).length := by
      intro run body rest hstart
      rw [(List.cons.inj hstart.source).2, List.takeWhile_append_of_pos hstart.chars,
        List.length_append]
      exact Nat.le_add_right _ _
    have htake : s.take (s.takeWhile isRunChar).length = s.takeWhile isRunChar :=
      (List.prefix_iff_eq_take.1 (List.takeWhile_prefix _)).symm
    rw [startTextFrom?_eq_some_iff (List.takeWhile_prefix _).length_le
      fun c hc => List.mem_takeWhile_imp (htake ▸ hc)]
    refine exists_congr fun run => exists_congr fun body => ?_
    constructor
    · rintro ⟨hstart, -, rfl, hlongest⟩
      exact ⟨⟨hstart, fun h => hlongest _ _ _ h (hrun h)⟩, rfl⟩
    · rintro ⟨hstart, rfl⟩
      exact ⟨hstart.toIsStartTag, hrun hstart.toIsStartTag, rfl, fun _ _ _ h _ => hstart.longest h⟩
  · rename_i hne
    refine iff_of_false (by simp) ?_
    rintro ⟨run, body, hstart, -⟩
    exact hne _ hstart.source

/-! ## Tags -/

/-- A tag at the front of a text that begins at an index, with its body and what follows it. The
name is as long as it can be. -/
structure IsTag (index : Nat) (s : Text) (mark : Mark) (body rest : Text) : Prop where
  source : s = char '<' ::
      ((if mark.closing then [char '/'] else []) ++ (mark.name ++ (body ++ char '>' :: rest)))
  letter : ∃ c n, mark.name = c :: n ∧ c.isAlpha = true
  chars : ∀ c ∈ mark.name, isMarkNameChar c = true
  longest : ∀ c ∈ body.head?, isMarkNameChar c = false
  isTagBody : IsTagBody body
  first : mark.first = index
  stop : mark.stop + rest.length = index + s.length
  selfClosing : mark.selfClosing = true ↔ [char '/'] <:+ trimRight body

theorem toNat_lt_of_isAlpha {c : CodePoint} (h : c.isAlpha = true) : c.toNat < 0x80 := by
  cases c with
  | char c =>
      have hcases : c.isUpper = true ∨ c.isLower = true := Bool.or_eq_true_iff.1 h
      rcases hcases with h | h
      · have hupper : 'A'.val ≤ c.val ∧ c.val ≤ 'Z'.val := of_decide_eq_true h
        exact Nat.lt_of_le_of_lt (UInt32.le_iff_toNat_le.1 hupper.2) (by decide)
      · exact Nat.lt_of_le_of_lt ((isLower_iff (c := .char c)).1 h).2 (by decide)
  | lone n => cases h

theorem isMarkNameChar_of_isAlpha {c : CodePoint} (h : c.isAlpha = true) :
    isMarkNameChar c = true := by
  rw [isMarkNameChar, isWord, if_pos (toNat_lt_of_isAlpha h), CodePoint.isAlphanum, h]
  rfl

theorem drop_length_takeWhile {α : Type} (p : α → Bool) (l : List α) :
    l.drop (l.takeWhile p).length = l.dropWhile p := by
  induction l with
  | nil => rfl
  | cons a l ih =>
      rw [List.takeWhile_cons, List.dropWhile_cons]
      split
      · exact ih
      · rfl

theorem exists_isTag_of_readMark? {index : Nat} {s : Text} {mark : Mark}
    (h : readMark? index s = some mark) : ∃ body rest, IsTag index s mark body rest := by
  unfold readMark? at h
  split at h
  · rename_i s
    have hslash : s = (if s.head? == some (char '/') then [char '/'] else []) ++
        (if s.head? == some (char '/') then s.drop 1 else s) := by
      split
      · rename_i hhead
        obtain ⟨t, rfl⟩ := List.head?_eq_some_iff.1 (beq_iff_eq.1 hhead)
        rfl
      · rfl
    simp only [Option.ite_none_right_eq_some, Option.map_eq_some_iff] at h
    obtain ⟨hletter, ⟨body, rest⟩, hcut, rfl⟩ := h
    generalize (if s.head? == some (char '/') then s.drop 1 else s) = r at hslash hletter hcut ⊢
    rw [drop_length_takeWhile, cutTagEnd?_eq_some_iff] at hcut
    obtain ⟨hdrop, hbody⟩ := hcut
    have hr : r = r.takeWhile isMarkNameChar ++ (body ++ char '>' :: rest) := by
      rw [← hdrop, List.takeWhile_append_dropWhile]
    have hsource := hslash.trans (congrArg _ hr)
    refine ⟨body, rest, congrArg (List.cons (char '<')) hsource, ?_,
        fun c hc => List.mem_takeWhile_imp hc,
      ?_, hbody, rfl, ?_, endsWith_iff _ _⟩
    · cases r with
      | nil => simp at hletter
      | cons c r =>
          have hc : c.isAlpha = true := hletter
          exact ⟨c, _, List.takeWhile_cons_of_pos (isMarkNameChar_of_isAlpha hc), hc⟩
    · intro c hc
      have hstop := List.head?_dropWhile_not isMarkNameChar r
      rw [hdrop, List.head?_append, Option.mem_def.1 hc] at hstop
      simpa using hstop
    · have hlength := congrArg List.length hsource
      simp only [List.length_append, List.length_cons] at hlength ⊢
      omega
  · cases h

theorem IsTag.readMark?_eq {index : Nat} {s body rest : Text} {mark : Mark}
    (h : IsTag index s mark body rest) : readMark? index s = some mark := by
  obtain ⟨first, stop, name, closing, selfClosing⟩ := mark
  obtain ⟨rfl, ⟨c, n, rfl, hc⟩, hchars, hlongest, hbody, rfl, hstop, hself⟩ := h
  have hne : c ≠ '/' := by
    rintro rfl
    exact absurd hc (by decide)
  have htake : (c :: n ++ (body ++ char '>' :: rest)).takeWhile isMarkNameChar = c :: n := by
    cases body with
    | nil => exact takeWhile_append_cons _ hchars (by decide)
    | cons b body => exact takeWhile_append_cons _ hchars (hlongest b rfl)
  have hcut : cutTagEnd? none (body ++ char '>' :: rest) = some (body, rest) :=
    cutTagEnd?_eq_some_iff.2 ⟨rfl, hbody⟩
  have hends : endsWith (trimRight body) ['/'] = selfClosing := by
    rw [Bool.eq_iff_iff, endsWith_iff]
    exact hself.symm
  have hletter :
      ((c :: n ++ (body ++ char '>' :: rest)).head?.map CodePoint.isAlpha).getD false = true := hc
  have hhead : (((if closing = true then [char '/'] else [])
      ++ (c :: n ++ (body ++ char '>' :: rest))).head?
      == some (char '/')) = closing := by
    cases closing <;> simp [hne]
  have hbehind : (if closing = true
      then ((if closing = true then [char '/'] else [])
          ++ (c :: n ++ (body ++ char '>' :: rest))).drop 1
      else (if closing = true then [char '/'] else []) ++ (c :: n ++ (body ++ char '>' :: rest)))
        = c :: n ++ (body ++ char '>' :: rest) := by
    cases closing <;> rfl
  rw [readMark?]
  simp only [hhead, hbehind, hletter, if_true, htake, List.drop_left, hcut, Option.map_some, hends]
  simp only [List.length_append, List.length_cons] at hstop ⊢
  congr 2
  omega

/-- A mark is a tag at the front of a text. -/
theorem readMark?_eq_some_iff {index : Nat} {s : Text} {mark : Mark} :
    readMark? index s = some mark ↔ ∃ body rest, IsTag index s mark body rest :=
  ⟨exists_isTag_of_readMark?, fun ⟨_, _, h⟩ => h.readMark?_eq⟩

/-! ## Comments -/

/-- A comment at the front of a text, with what stands in it and what follows it. It ends at the
first place it can. -/
structure IsComment (s content rest : Text) : Prop where
  source : s = "<!--".text ++ (content ++ "-->".text ++ rest)
  first : ∀ a b, content ++ "-->".text ++ rest = a ++ "-->".text ++ b →
    content.length ≤ a.length

theorem commentLength?_eq_some_iff {s : Text} {length : Nat} :
    commentLength? s = some length ↔
      ∃ content rest, IsComment s content rest ∧ length = content.length + 7 := by
  simp only [commentLength?, Option.bind_eq_bind, Option.bind_eq_some_iff, after?_eq_some_iff,
    Option.some.injEq]
  constructor
  · rintro ⟨_, rfl, ⟨content, rest⟩, hcut, rfl⟩
    obtain ⟨rfl, hfirst⟩ := cut?_eq_some_iff.1 hcut
    exact ⟨content, rest, ⟨rfl, hfirst⟩, rfl⟩
  · rintro ⟨content, rest, ⟨rfl, hfirst⟩, rfl⟩
    exact ⟨_, rfl, (content, rest), cut?_eq_some_iff.2 ⟨rfl, hfirst⟩, rfl⟩

/-! ## The search for tags -/

/-- The tags that a search through a text meets, from the left to the right. The text begins at
an index. -/
inductive Meets : Nat → Text → List Mark → Prop
  | done {index : Nat} : Meets index [] []
  | comment {index : Nat} {s content rest : Text} {ms : List Mark}
      (hcomment : IsComment s content rest) (later : Meets (index + content.length + 7) rest ms) :
      Meets index s ms
  | tag {index : Nat} {s body rest : Text} {mark : Mark} {ms : List Mark}
      (htag : IsTag index s mark body rest) (later : Meets mark.stop rest ms) :
      Meets index s (mark :: ms)
  | other {index : Nat} {c : CodePoint} {s : Text} {ms : List Mark}
      (hcomment : ∀ content rest, ¬ IsComment (c :: s) content rest)
      (htag : ∀ mark body rest, ¬ IsTag index (c :: s) mark body rest)
      (later : Meets (index + 1) s ms) : Meets index (c :: s) ms

/-- What is behind a comment or a tag that is passed over. -/
theorem marksFrom_of_length {index k : Nat} {s rest : Text} (h : rest <:+ s)
    (hk : k + rest.length = s.length) : marksFrom k index s = marksFrom 0 (index + k) rest := by
  obtain ⟨front, rfl⟩ := h
  obtain rfl : k = front.length := by
    rw [List.length_append] at hk
    omega
  exact marksFrom_append front rest index

section

variable {index : Nat} {s content body rest : Text} {mark : Mark}

theorem IsComment.exists_cons (h : IsComment s content rest) :
    ∃ t, s = char '<' :: t ∧ rest <:+ t ∧ content.length + 6 + rest.length = t.length := by
  refine ⟨"!--".text ++ (content ++ "-->".text ++ rest), h.source, ?_, ?_⟩
  · exact ⟨"!--".text ++ (content ++ "-->".text), by simp only [List.append_assoc]⟩
  · simp only [List.length_append]
    show content.length + 6 + rest.length = 3 + (content.length + 3 + rest.length)
    omega

theorem IsTag.exists_cons (h : IsTag index s mark body rest) :
    ∃ c t, s = char '<' :: c :: t ∧ c ≠ '!' ∧ rest <:+ c :: t := by
  obtain ⟨c, n, hname, hc⟩ := h.letter
  have hs := h.source
  rw [hname] at hs
  cases hclosing : mark.closing with
  | true =>
      rw [hclosing] at hs
      exact ⟨'/', _, hs, by decide, ⟨char '/' :: (c :: n ++ (body ++ [char '>'])), by simp⟩⟩
  | false =>
      rw [hclosing] at hs
      refine ⟨c, _, hs, ?_, ⟨c :: n ++ (body ++ [char '>']), by simp⟩⟩
      rintro rfl
      exact absurd hc (by decide)

theorem IsComment.marksFrom_eq (h : IsComment s content rest) :
    marksFrom 0 index s = marksFrom 0 (index + content.length + 7) rest := by
  have hread := commentLength?_eq_some_iff.2 ⟨content, rest, h, rfl⟩
  obtain ⟨t, rfl, hrest, hlength⟩ := h.exists_cons
  rw [marksFrom, hread]
  simp only
  rw [show content.length + 7 - 1 = content.length + 6 from rfl, marksFrom_of_length hrest hlength]
  congr 1
  omega

theorem IsTag.marksFrom_eq (h : IsTag index s mark body rest) :
    marksFrom 0 index s = mark :: marksFrom 0 mark.stop rest := by
  have hread := h.readMark?_eq
  have hstop := h.stop
  obtain ⟨c, t, rfl, hc, hrest⟩ := h.exists_cons
  have hle := hrest.length_le
  rw [List.length_cons] at hstop
  rw [marksFrom, commentLength?_cons_of_ne t hc, hread]
  simp only
  rw [marksFrom_of_length hrest (by omega)]
  congr 2
  omega

theorem marksFrom_other {c : CodePoint}
    (hcomment : ∀ content rest, ¬ IsComment (c :: s) content rest)
    (htag : ∀ mark body rest, ¬ IsTag index (c :: s) mark body rest) :
    marksFrom 0 index (c :: s) = marksFrom 0 (index + 1) s := by
  have hlength : commentLength? (c :: s) = none := by
    refine Option.eq_none_iff_forall_ne_some.2 fun length h => ?_
    obtain ⟨content, rest, h, -⟩ := commentLength?_eq_some_iff.1 h
    exact hcomment content rest h
  have hread : readMark? index (c :: s) = none := by
    refine Option.eq_none_iff_forall_ne_some.2 fun mark h => ?_
    obtain ⟨body, rest, h⟩ := readMark?_eq_some_iff.1 h
    exact htag mark body rest h
  rw [marksFrom, hlength, hread]

end

theorem meets_marksFrom (index : Nat) (s : Text) : Meets index s (marksFrom 0 index s) := by
  -- a comment or a tag is passed over as a whole, so the induction is on the length
  induction hn : s.length using Nat.strong_induction_on generalizing index s with
  | _ n ih =>
      subst hn
      have later : ∀ {index rest}, rest.length < s.length →
          Meets index rest (marksFrom 0 index rest) :=
        fun {index rest} h => ih _ h index rest rfl
      by_cases hcomment : ∃ content rest, IsComment s content rest
      · obtain ⟨content, rest, h⟩ := hcomment
        rw [h.marksFrom_eq]
        obtain ⟨t, rfl, hrest, -⟩ := h.exists_cons
        exact .comment h (later (Nat.lt_succ_of_le hrest.length_le))
      by_cases htag : ∃ mark body rest, IsTag index s mark body rest
      · obtain ⟨mark, body, rest, h⟩ := htag
        rw [h.marksFrom_eq]
        obtain ⟨c, t, rfl, -, hrest⟩ := h.exists_cons
        exact .tag h (later (Nat.lt_succ_of_le hrest.length_le))
      simp only [not_exists] at hcomment htag
      cases s with
      | nil => exact .done
      | cons c s =>
          rw [marksFrom_other hcomment htag]
          exact .other hcomment htag (later (Nat.lt_succ_self _))

/-- The search meets the marks of the text. -/
theorem meets_iff {index : Nat} {s : Text} {ms : List Mark} :
    Meets index s ms ↔ ms = marksFrom 0 index s := by
  constructor
  · intro h
    induction h with
    | done => rfl
    | comment hcomment _ ih => rw [ih, hcomment.marksFrom_eq]
    | tag htag _ ih => rw [ih, htag.marksFrom_eq]
    | other hcomment htag _ ih => rw [ih, marksFrom_other hcomment htag]
  · rintro rfl
    exact meets_marksFrom index s

/-- The tags that are met lie apart from the front and within the text. -/
theorem Meets.bounds {index : Nat} {s : Text} {ms : List Mark} (h : Meets index s ms) :
    ∀ mark ∈ ms, index ≤ mark.first ∧ mark.first < mark.stop ∧ mark.stop ≤ index + s.length := by
  induction h with
  | done => simp
  | @comment index s content rest ms hcomment _ ih =>
      intro mark hmark
      obtain ⟨t, rfl, -, hlength⟩ := hcomment.exists_cons
      have hbounds := ih mark hmark
      rw [List.length_cons]
      omega
  | @tag index s body rest m ms htag _ ih =>
      have hfirst := htag.first
      have hstop := htag.stop
      obtain ⟨c, t, rfl, -, hrest⟩ := htag.exists_cons
      have hle := hrest.length_le
      rw [List.length_cons] at hstop ⊢
      intro mark hmark
      rcases List.mem_cons.1 hmark with rfl | hmark
      · omega
      · have hbounds := ih mark hmark
        omega
  | @other index c s ms _ _ _ ih =>
      intro mark hmark
      have hbounds := ih mark hmark
      rw [List.length_cons]
      omega

/-! ## Indices -/

/-- A tag of a text, as a tag of a longer text with so many characters in front. -/
def Mark.shift (n : Nat) (mark : Mark) : Mark :=
  { mark with first := n + mark.first, stop := n + mark.stop }

theorem readMark?_add (n index : Nat) (s : Text) :
    readMark? (n + index) s = (readMark? index s).map (Mark.shift n) := by
  unfold readMark?
  split
  · rename_i s
    simp only
    generalize (if s.head? == some (char '/') then s.drop 1 else s) = r
    split
    · rw [Option.map_map]
      refine congrArg (Option.map · _) (funext fun found => ?_)
      simp only [Function.comp_apply, Mark.shift, Nat.add_assoc]
    · rfl
  · rfl

theorem marksFrom_add (n k index : Nat) (s : Text) :
    marksFrom k (n + index) s = (marksFrom k index s).map (Mark.shift n) := by
  fun_induction marksFrom k index s with
  | case1 k index => rfl
  | case2 k index c s ih => exact ih
  | case3 index c s length hcomment ih =>
      rw [marksFrom, hcomment]
      exact ih
  | case4 index c s hcomment mark hread ih =>
      have hskip : (mark.shift n).stop - (n + index) - 1 = mark.stop - index - 1 := by
        rw [Mark.shift, Nat.add_sub_add_left]
      rw [marksFrom, hcomment, readMark?_add, hread, Option.map_some]
      simp only [hskip, List.map_cons]
      exact congrArg _ ih
  | case5 index c s hcomment hread ih =>
      rw [marksFrom, hcomment, readMark?_add, hread]
      exact ih

end Stencil.Html
