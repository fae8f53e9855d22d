import Stencil.Proofs.Document.Matches
import Stencil.Proofs.Flow.Basic
import Stencil.Proofs.Source.Names

set_option autoImplicit false

/-! # Reading a flow

The tags that are read off the source of a flow are its start tags, in order; whatever stands
in comments and raw text is passed over. Running text may hold ampersands, so it is read in more
than one step, and at the end of the source its last reference is left to the second pass.
-/

namespace Stencil.Html

open Text

/-! ## Running text -/

theorem IsProse.append_right {a b : Text} (h : IsProse (a ++ b)) : IsProse b := by
  obtain ⟨hlt, hamp⟩ := h
  refine ⟨fun hm => hlt (List.mem_append_right a hm), ?_⟩
  rw [contains_eq_false_iff] at hamp ⊢
  rintro x y rfl
  exact hamp (a ++ x) y (by simp)

theorem skipSemicolon_append (s r : Text) :
    Token.skipSemicolon (s ++ char '<' :: r) = Token.skipSemicolon s ++ char '<' :: r := by
  cases s with
  | nil => rfl
  | cons c s =>
      by_cases hc : c = ';'
      · rw [hc]
        rfl
      · have hkeep : ∀ t : Text, Token.skipSemicolon (c :: t) = c :: t := by
          intro t
          unfold Token.skipSemicolon
          split
          · rename_i e
            exact absurd (List.cons.inj e).1 hc
          · rfl
        rw [List.cons_append, hkeep, hkeep, List.cons_append]

/-- In front of a tag, the name of a reference ends there at the latest. -/
theorem readRefName?_append (s r : Text) : ∃ name b, b <:+ s ∧
    Token.readRefName? (s ++ char '<' :: r) = some (name, b ++ char '<' :: r) := by
  obtain ⟨htake, hdrop⟩ := takeWhile_append_stop (p := Token.isRefNameChar) (c := '<') (by decide) s r
  refine ⟨s.takeWhile Token.isRefNameChar, Token.skipSemicolon (s.dropWhile Token.isRefNameChar),
    (Token.skipSemicolon_suffix _).trans (List.dropWhile_suffix _), ?_⟩
  rw [Token.readRefName?, htake, hdrop]
  obtain ⟨c, t, ht⟩ : ∃ c t, s.dropWhile Token.isRefNameChar ++ char '<' :: r = c :: t := by
    cases s.dropWhile Token.isRefNameChar <;> exact ⟨_, _, rfl⟩
  rw [← skipSemicolon_append, ht]

/-- In front of a tag, one step of the reading takes a piece of running text. -/
theorem next_prose {s : Text} (hs : IsProse s) (hne : s ≠ []) (r : Text) (last : Bool)
    (p : Position) : ∃ a b x, s = a ++ b ∧ a ≠ [] ∧
      Step.next last .markup p (s ++ char '<' :: r)
          = .ok (.go [Step.plain x] .markup (b ++ char '<' :: r)) := by
  obtain ⟨c, s, rfl⟩ := List.exists_cons_of_ne_nil hne
  by_cases hc : c = '&'
  · subst hc
    have hnext : Step.next last .markup p (char '&' :: s ++ char '<' :: r)
        = Step.ofReference last (s ++ char '<' :: r) := rfl
    rw [hnext]
    cases s with
    | nil => exact ⟨['&'], [], ['&'], rfl, by simp, rfl⟩
    | cons d s =>
        have hd : d ≠ '#' := by
          rintro rfl
          exact (contains_eq_false_iff _ _).1 hs.2 [] s rfl
        rw [List.cons_append, Step.ofReference]
        · by_cases halpha : d.isAlpha = true
          · obtain ⟨name, b, ⟨a, ha⟩, hread⟩ := readRefName?_append (d :: s) r
            refine ⟨char '&' :: a, b, CharRef.ofNameInText name, by simp [ha], by simp, ?_⟩
            rw [List.cons_append] at hread
            rw [if_pos halpha, hread]
          · refine ⟨['&'], d :: s, ['&'], rfl, by simp, ?_⟩
            rw [if_neg halpha]
            rfl
        · exact hd
  · have hlt : c ≠ '<' := fun e => hs.1 (e ▸ List.mem_cons_self)
    have hplain : Step.isPlainChar c = true := by simp [Step.isPlainChar, hc, hlt]
    obtain ⟨htake, hdrop⟩ :=
      takeWhile_append_stop (p := Step.isPlainChar) (c := '<') (by decide) (c :: s) r
    refine ⟨(c :: s).takeWhile Step.isPlainChar, (c :: s).dropWhile Step.isPlainChar,
      (c :: s).takeWhile Step.isPlainChar, List.takeWhile_append_dropWhile.symm, ?_, ?_⟩
    · rw [List.takeWhile_cons_of_pos hplain]
      simp
    · rw [← htake, ← hdrop, List.cons_append, Step.next]
      · exact fun t e => hlt (List.cons.inj e).1
      · exact fun t e => hc (List.cons.inj e).1

/-- Running text in front of a tag is passed over. -/
theorem readsAs_prose {s : Text} (hs : IsProse s) (r : Text) (last : Bool) (p : Position) :
    ReadsAs last .markup .markup p s [] ('<' :: r) := by
  induction hlength : s.length using Nat.strong_induction_on generalizing s p with
  | _ n ih =>
      by_cases hne : s = []
      · rw [hne]
        exact readsAs_nil last .markup p _
      · obtain ⟨a, b, x, rfl, ha, hnext⟩ := next_prose hs hne r last p
        have hlt : b.length < n := by
          have := List.length_pos_iff.2 ha
          rw [List.length_append] at hlength
          omega
        rw [List.append_assoc] at hnext
        have hfirst := readsAs_of_next ha hnext
        exact hfirst.append (ih b.length hlt hs.append_right (p.advance a) rfl)

/-! ## Text at the end -/

/-- What stands behind an ampersand is no number when no `#` follows. -/
theorem ofReference_eq (last : Bool) {s : Text} (hs : ∀ r, s ≠ char '#' :: r) :
    ∃ ts rest, (∀ t ∈ ts, t.IsPassive) ∧ (Step.ofReference last s = .ok (.go ts .markup rest) ∨
      Step.ofReference last s = .ok (.stop ts rest)) := by
  unfold Step.ofReference
  split
  · exact ⟨_, _, by simp, Or.inr rfl⟩
  · exact absurd rfl (hs _)
  · split
    · split
      · exact ⟨_, _, by simp [Step.plain, Token.IsPassive], Or.inl rfl⟩
      · split
        · exact ⟨_, _, by simp, Or.inr rfl⟩
        · exact ⟨_, _, by simp, Or.inr rfl⟩
    · exact ⟨_, _, by simp [Step.plain, Token.IsPassive], Or.inl rfl⟩

/-- In running text, a step of the reading finds no tag. -/
theorem next_tail {s : Text} (hs : IsProse s) (last : Bool) (p : Position) :
    ∃ ts rest, (∀ t ∈ ts, t.IsPassive) ∧ (Step.next last .markup p s = .ok (.go ts .markup rest) ∨
      Step.next last .markup p s = .ok (.stop ts rest)) := by
  unfold Step.next
  split
  · rename_i e
    cases e
  · split
    · exact absurd List.mem_cons_self hs.1
    · refine ofReference_eq last ?_
      rintro r rfl
      exact (contains_eq_false_iff _ _).1 hs.2 [] r rfl
    · exact ⟨_, _, by simp [Step.plain, Token.IsPassive], Or.inl rfl⟩

/-- In running text, a pass finds no tag and does not fail. -/
theorem pass_tail {last : Bool} {c : Cursor} (hmode : c.mode = .markup) (hs : IsProse c.rest) :
    ∃ ts final, c.pass last = .ok (ts, final) ∧ (∀ t ∈ ts, t.IsPassive) ∧
      final.mode = .markup ∧ IsProse final.rest := by
  induction hlength : c.rest.length using Nat.strong_induction_on generalizing c with
  | _ n ih =>
      rw [Cursor.pass]
      split
      · exact ⟨[], c, rfl, by simp, hmode, hs⟩
      · obtain ⟨ts, rest, hts, hnext | hnext⟩ := next_tail hs last c.position
        all_goals
          have hrest : IsProse rest := by
            obtain ⟨front, hfront⟩ := (Step.next_isFrom hnext).2
            have hsplit : front ++ rest = c.rest := hfront
            exact IsProse.append_right (a := front) (hsplit ▸ hs)
          rw [hmode, hnext]
          simp only
        · split
          · rename_i hlt
            obtain ⟨us, final, hpass, hus, hfinal⟩ :=
              ih rest.length (hlength ▸ hlt) (c := c.moveTo .markup rest) rfl hrest rfl
            rw [hpass]
            refine ⟨ts ++ us, final, rfl, fun t ht => ?_, hfinal⟩
            exact (List.mem_append.1 ht).elim (hts t) (hus t)
          · exact ⟨ts, c, rfl, hts, hmode, hs⟩
        · exact ⟨ts, _, rfl, hts, rfl, hrest⟩

theorem opened?_of_isPassive {t : Token} (h : t.IsPassive) : t.opened? = none := by
  cases t with
  | start p tag => exact h.elim
  | close name => rfl
  | text kind content => rfl

/-- Running text at the end of a source holds no tag. -/
theorem tokens_tail {s : Text} (hs : IsProse s) (p : Position) :
    ∃ ts, Cursor.tokens ⟨.markup, p, s⟩ = .ok ts ∧ ts.filterMap Token.opened? = [] := by
  obtain ⟨ts, paused, hfirst, hts, hmode, hrest⟩ := @pass_tail false ⟨.markup, p, s⟩ rfl hs
  obtain ⟨us, final, hsecond, hus, -, -⟩ := @pass_tail true paused hmode hrest
  rw [Cursor.tokens, hfirst]
  simp only [bind, Except.bind, hsecond]
  refine ⟨_, rfl, ?_⟩
  rw [List.filterMap_append, List.filterMap_append,
    List.filterMap_eq_nil_iff.2 fun t ht => opened?_of_isPassive (hts t ht),
    List.filterMap_eq_nil_iff.2 fun t ht => opened?_of_isPassive (hus t ht)]
  split <;> rfl

/-! ## Chunks -/

/-- Whether a chunk is read up to its own end: a comment and a script may hold dashes and `</`, as
long as they do not end in front of their end. -/
def Chunk.IsReadable : Chunk → Prop
  | comment s => Token.readComment? s = none
  | raw t s => t.IsWritten ∧ t.closesItself = false ∧ t.name ∈ RawText.names ∧
      cutAt? (RawText.afterSpacedEndTag? t.name) s = none ∧ (t.name = sheetName → char '<' ∉ s)
  | c => c.WellFormed

instance : DecidablePred Chunk.IsReadable
  | .opening t => inferInstanceAs (Decidable (Chunk.opening t).WellFormed)
  | .closing name => inferInstanceAs (Decidable (Chunk.closing name).WellFormed)
  | .comment s => inferInstanceAs (Decidable (Token.readComment? s = none))
  | .declaration s => inferInstanceAs (Decidable (Chunk.declaration s).WellFormed)
  | .raw t s => inferInstanceAs (Decidable (t.IsWritten ∧ t.closesItself = false ∧
      t.name ∈ RawText.names ∧ cutAt? (RawText.afterSpacedEndTag? t.name) s = none ∧
      (t.name = sheetName → char '<' ∉ s)))

/-- Where no two dashes stand in a row, no comment ends. -/
theorem readComment?_eq_none {s : Text} (hs : contains s ['-', '-'] = false) :
    Token.readComment? s = none := by
  rw [Token.readComment?, Option.map_eq_none_iff, cutAt?_eq_none_iff]
  rintro b ⟨a, rfl⟩
  have hnone : after? ['-', '-'] b = none := by
    rw [after?_eq_none_iff]
    rintro r rfl
    exact (contains_eq_false_iff _ _).1 hs a r (by simp)
  rw [hnone]
  rfl

theorem Chunk.WellFormed.isReadable {c : Chunk} (h : c.WellFormed) : c.IsReadable := by
  cases c with
  | comment s => exact readComment?_eq_none h
  | raw t s =>
      obtain ⟨ht, hopen, hraw, hs, hcss⟩ := h
      exact ⟨ht, hopen, hraw, cutAt?_endTag_eq_none hs t.name, hcss⟩
  | _ => exact h

theorem Chunk.IsReadable.tag {c : Chunk} (h : c.IsReadable) {t : OpenTag} (ht : c.tag? = some t) :
    t.IsWritten := by
  cases c with
  | opening u =>
      obtain rfl := Option.some.inj ht
      exact h.1
  | raw u s =>
      obtain rfl := Option.some.inj ht
      exact h.1
  | _ => cases ht

/-- A dash behind a text does not finish the end of a comment that has begun in the text. -/
theorem afterSpaced?_append_dash {s : Text} (hs : Token.afterSpaced? ['>'] s = none) (r : Text) :
    Token.afterSpaced? ['>'] (s ++ char '-' :: r) = none := by
  rw [Token.afterSpaced?, Option.bind_eq_none_iff] at hs ⊢
  rw [trimLeft_append_stop (by decide), after?_append_stop (by decide)]
  intro t ht
  obtain ⟨u, hu, -⟩ := Option.map_eq_some_iff.1 ht
  cases hs u hu

/-- A comment in which no comment ends is read up to its own end. -/
theorem readComment?_append {s : Text} (hs : Token.readComment? s = none) (r : Text) :
    Token.readComment? (s ++ (char '-' :: char '-' :: char '>' :: r))
        = some ([.text .comment s], r) := by
  have hend : (after? ['-', '-'] ('-' :: char '-' :: char '>' :: r)).bind
      (Token.afterSpaced? ['>']) = some r := rfl
  have key := @cutAt?_append (fun t => (after? ['-', '-'] t).bind (Token.afterSpaced? ['>'])) s
    _ _ ?_ hend (by simp)
  · rw [Token.readComment?, key]
    rfl
  · intro a b hab hb
    rw [Token.readComment?, Option.map_eq_none_iff, cutAt?_eq_none_iff] at hs
    have hnone := hs b ⟨a, hab.symm⟩
    obtain ⟨x, b, rfl⟩ := List.exists_cons_of_ne_nil hb
    cases b with
    | nil =>
        -- a last dash stands in front of two others, not of the end
        by_cases hx : x = '-'
        · rw [hx]
          rfl
        · show (after? ['-', '-'] (x :: _)).bind _ = none
          rw [after?_cons_of_ne _ _ fun e => hx e.symm]
          rfl
    | cons y b =>
        by_cases hdashes : x = '-' ∧ y = '-'
        · obtain ⟨rfl, rfl⟩ := hdashes
          exact afterSpaced?_append_dash hnone _
        · have hother : after? ['-', '-']
            (x :: y :: b ++ (char '-' :: char '-' :: char '>' :: r)) = none := by
            rw [after?_eq_none_iff]
            intro q e
            obtain ⟨rfl, hrest⟩ := List.cons.inj e
            exact hdashes ⟨rfl, (List.cons.inj hrest).1⟩
          rw [hother]
          rfl

theorem readsAs_comment {s : Text} (hs : Token.readComment? s = none) (last : Bool) (p : Position)
    (r : Text) : ReadsAs last .markup .markup p ("<!--".text ++ s ++ "-->".text) [] r := by
  have hnext : Step.next last .markup p ("<!--".text ++ s ++ "-->".text ++ r)
      = .ok (.go [.text .comment s] .markup r) := by
    have hread := readComment?_append hs r
    have hmarkup : Step.ofMarkup p
        ('!' :: char '-' :: char '-' :: (s ++ (char '-' :: char '-' :: char '>' :: r)))
        = .ok (some ([.text .comment s], .markup, r)) := by
      show (Except.ok (Token.readComment? _) : Except ReadError _).map _ = _
      rw [hread]
      rfl
    have hsource : "<!--".text ++ s ++ "-->".text ++ r
        = char '<' :: (char '!' :: char '-' :: char '-' ::
            (s ++ (char '-' :: char '-' :: char '>' :: r))) := by simp
    rw [hsource, Step.next, hmarkup]
    rfl
  exact readsAs_of_next (by simp) hnext

/-- Text in front of `>` begins with a character that the whole begins with. -/
theorem exists_cons_of_append_close {s t r : Text} {c : CodePoint} (h : s ++ char '>' :: r = c :: t)
    (hc : c ≠ '>') : ∃ q, s = c :: q ∧ q ++ char '>' :: r = t := by
  cases s with
  | nil => exact absurd (List.cons.inj h).1.symm hc
  | cons d s =>
      obtain ⟨rfl, hrest⟩ := List.cons.inj h
      exact ⟨s, rfl, hrest⟩

/-- What begins with `<!` is read up to the next `>`, unless it is a comment or a marked section. -/
theorem readDeclaration?_append {s : Text} (hs : Chunk.isDeclaration ('!' :: s) = true)
    (hend : char '>' ∉ s) (r : Text) : ∃ kind x,
      Token.readDeclaration? (s ++ char '>' :: r) = .ok (some ([.text kind x], r)) := by
  unfold Token.readDeclaration?
  split
  · -- a comment
    rename_i t e
    obtain ⟨q, rfl⟩ : ∃ q, s = char '-' :: char '-' :: q := by
      obtain ⟨s', hs', hrest⟩ := exists_cons_of_append_close e (by decide)
      obtain ⟨q, hq, -⟩ := exists_cons_of_append_close hrest (by decide)
      exact ⟨q, by rw [hs', hq]⟩
    cases hs
  · -- a marked section
    rename_i t e
    obtain ⟨q, rfl, -⟩ := exists_cons_of_append_close e (by decide)
    cases hs
  · dsimp only
    split
    · rename_i hword
      have hlength : "doctype".text.length ≤ s.length := by
        by_contra hlt
        have hmem : char '>' ∈ (s ++ char '>' :: r).take "doctype".text.length :=
          mem_take_append_cons (by omega) r
        have hlower := List.mem_map_of_mem (f := CodePoint.toLower) hmem
        rw [hword] at hlower
        exact absurd hlower (by decide)
      rw [List.drop_append_of_le_length hlength, cut?_char fun hm => hend (List.mem_of_mem_drop hm)]
      exact ⟨.doctype, _, rfl⟩
    · rw [Token.readUpToClose?, cut?_char hend]
      exact ⟨.comment, s, rfl⟩

theorem readsAs_declaration {s : Text} (h : (Chunk.declaration s).WellFormed) (last : Bool)
    (p : Position) (r : Text) :
    ReadsAs last .markup .markup p ([char '<'] ++ s ++ [char '>']) [] r := by
  obtain ⟨hs, hend⟩ := h
  have hmarkup : ∃ kind x, Step.ofMarkup p (s ++ char '>' :: r)
      = .ok (some ([.text kind x], .markup, r)) := by
    cases s with
    | nil => cases hs
    | cons c s =>
        have hend' : char '>' ∉ s := fun hm => hend (List.mem_cons_of_mem c hm)
        by_cases hquery : c = '?'
        · subst hquery
          refine ⟨.instruction, s, ?_⟩
          show (Except.ok ((Token.readUpToClose? .instruction (s ++ char '>' :: r)).map _) :
            Except ReadError _)
            = _
          rw [Token.readUpToClose?, cut?_char hend']
          rfl
        · obtain rfl : c = '!' := by
            unfold Chunk.isDeclaration at hs
            split at hs <;> simp_all
          obtain ⟨kind, x, hread⟩ := readDeclaration?_append hs hend' r
          refine ⟨kind, x, ?_⟩
          show (Token.readDeclaration? (s ++ char '>' :: r)).map _ = _
          rw [hread]
          rfl
  obtain ⟨kind, x, hmarkup⟩ := hmarkup
  have hnext : Step.next last .markup p ([char '<'] ++ s ++ [char '>'] ++ r)
      = .ok (.go [.text kind x] .markup r) := by
    have hsource : [char '<'] ++ s ++ [char '>'] ++ r = char '<' :: (s ++ char '>' :: r) := by simp
    rw [hsource, Step.next, hmarkup]
    rfl
  exact readsAs_of_next (by simp) hnext

/-- A chunk is read as its start tag, if it has one. -/
theorem Chunk.IsReadable.readsAs {c : Chunk} (h : c.IsReadable) (last : Bool) (p : Position)
    (r : Text) :
    ReadsAs last .markup .markup p c.source (c.tag?.map (·.tagAt p)).toList r := by
  cases c with
  | opening t =>
      have hmode : t.modeAfter = .markup := by
        rw [OpenTag.modeAfter, List.elem_eq_mem, decide_eq_false h.2, Bool.and_false]
        rfl
      exact hmode ▸ readsAs_startTag h.1 last p r
  | closing name => exact readsAs_endTag h last p r
  | comment s => exact readsAs_comment h last p r
  | declaration s => exact readsAs_declaration h last p r
  | raw t s =>
      obtain ⟨ht, hopen, hraw, hs, -⟩ := h
      have hmode : t.modeAfter = .raw t.name := by
        rw [OpenTag.modeAfter, hopen, List.elem_eq_mem, decide_eq_true hraw]
        rfl
      have hstart := readsAs_startTag ht last p (s ++ endTagText t.name ++ r)
      rw [hmode] at hstart
      exact hstart.append (readsAs_rawText hraw hs last (p.advance t.source) r)

theorem Chunk.exists_source_cons (c : Chunk) : ∃ s, c.source = char '<' :: s := by
  cases c with
  | opening t => exact ⟨t.inside ++ [char '>'], by simp [source, OpenTag.source]⟩
  | closing name => exact ⟨char '/' :: (name ++ [char '>']), by simp [source, endTagText]⟩
  | comment s => exact ⟨"!--".text ++ s ++ "-->".text, by simp [source]⟩
  | declaration s => exact ⟨s ++ [char '>'], rfl⟩
  | raw t s =>
      exact ⟨t.inside ++ [char '>'] ++ (s ++ endTagText t.name), by simp [source, OpenTag.source]⟩

/-! ## Flows -/

namespace Flow

/-- Whether every chunk of a flow is read up to its own end. -/
def IsReadable : Flow → Prop
  | text s => IsProse s
  | chunk before c rest => IsProse before ∧ c.IsReadable ∧ rest.IsReadable

/-- Whether a flow is readable, as a computation. -/
def decideIsReadable : (f : Flow) → Decidable f.IsReadable
  | text s => inferInstanceAs (Decidable (IsProse s))
  | chunk before c rest =>
      have := decideIsReadable rest
      inferInstanceAs (Decidable (IsProse before ∧ c.IsReadable ∧ rest.IsReadable))

instance : DecidablePred IsReadable := decideIsReadable

theorem WellFormed.isReadable {f : Flow} (h : f.WellFormed) : f.IsReadable := by
  induction f with
  | text s => exact h
  | chunk before c rest ih => exact ⟨h.1, h.2.1.isReadable, ih h.2.2⟩

/-- The tags of the elements of a flow that is written at a position, in their order. -/
def tagsFrom (p : Position) : Flow → List Tag
  | text _ => []
  | chunk before c rest =>
      (c.tag?.map (·.tagAt (p.advance before))).toList ++
        rest.tagsFrom (p.advance (before ++ c.source))

/-- The source of a flow is read as its start tags. -/
theorem IsReadable.tokens_source {f : Flow} (h : f.IsReadable) (p : Position) :
    ∃ ts, Cursor.tokens ⟨.markup, p, f.source⟩ = .ok ts ∧
      ts.filterMap Token.opened? = f.tagsFrom p := by
  induction f generalizing p with
  | text s => exact tokens_tail h p
  | chunk before c rest ih =>
      obtain ⟨hbefore, hc, hrest⟩ := h
      obtain ⟨x, hx⟩ := c.exists_source_cons
      have hfront : ReadsAs false .markup .markup p before [] (c.source ++ rest.source) := by
        rw [hx]
        exact readsAs_prose hbefore _ false p
      obtain ⟨ts, hts, htokens⟩ := (hfront.append (hc.readsAs false _ rest.source)).tokens
      obtain ⟨us, hus, htags⟩ := ih hrest (p.advance (before ++ c.source))
      refine ⟨ts ++ us, ?_, ?_⟩
      · rw [source, htokens, hus]
        rfl
      · rw [List.filterMap_append, hts, htags]
        rfl

/-- The elements of the source of a flow are those that its start tags open. -/
theorem IsReadable.ofSource {f : Flow} (h : f.IsReadable) :
    ∃ nodes, Node.ofSource f.source = .ok nodes ∧ tagsOf nodes = f.tagsFrom .origin := by
  obtain ⟨ts, hts, htags⟩ := h.tokens_source .origin
  obtain ⟨nodes, hnodes, hof⟩ := @tagsOf_ofSource f.source _ hts
  exact ⟨nodes, hnodes, hof.trans htags⟩

theorem WellFormed.ofSource {f : Flow} (h : f.WellFormed) :
    ∃ nodes, Node.ofSource f.source = .ok nodes ∧ tagsOf nodes = f.tagsFrom .origin :=
  h.isReadable.ofSource

theorem exists_of_mem_tagsFrom {f : Flow} {p : Position} {tag : Tag} (h : tag ∈ f.tagsFrom p) :
    ∃ t ∈ f.tags, ∃ q, tag = t.tagAt q := by
  induction f generalizing p with
  | text s => simp [tagsFrom] at h
  | chunk before c rest ih =>
      rw [tagsFrom, List.mem_append] at h
      rcases h with h | h
      · rw [Option.mem_toList, Option.map_eq_some_iff] at h
        obtain ⟨t, ht, rfl⟩ := h
        exact ⟨t, mem_tags_chunk.2 (Or.inl ht), _, rfl⟩
      · obtain ⟨t, ht, q, rfl⟩ := ih h
        exact ⟨t, mem_tags_chunk.2 (Or.inr ht), q, rfl⟩

end Flow

end Stencil.Html
