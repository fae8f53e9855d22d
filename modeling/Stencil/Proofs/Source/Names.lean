import Stencil.Proofs.Document.Tree
import Stencil.Proofs.Source.Rest
import Stencil.Proofs.Table
import Stencil.Proofs.Text.Letters
import Stencil.Proofs.Work

set_option autoImplicit false

/-! # The names of tags and attributes stand in the source

A start tag that is read off any source, well formed or not, is named by what stands behind a `<`
of that source, and its attributes are named by pieces of the source, all in lower case. So a
source without a word has no element with an attribute whose name holds the word, and one without
the front of a tag has no element of that name.
-/

namespace Stencil.Html

open Text

/-- Whether a name is a piece of a text, in lower case. -/
def NameStandsIn (s name : Text) : Prop := ∃ n, n <:+: s ∧ name = lower n

theorem NameStandsIn.mono {s t name : Text} (h : NameStandsIn s name) (hst : s <:+: t) :
    NameStandsIn t name := by
  obtain ⟨n, hn, rfl⟩ := h
  exact ⟨n, hn.trans hst, rfl⟩

/-- Whether a name stands behind a `<` in a text, in lower case. -/
def TagStandsIn (s name : Text) : Prop := ∃ n, char '<' :: n <:+: s ∧ name = lower n

theorem TagStandsIn.mono {s t name : Text} (h : TagStandsIn s name) (hst : s <:+: t) :
    TagStandsIn t name := by
  obtain ⟨n, hn, rfl⟩ := h
  exact ⟨n, hn.trans hst, rfl⟩

/-! ## Start tags -/

namespace StartTag

theorem skipGap_suffix (s : Text) : skipGap s <:+ s := by
  fun_induction skipGap s with
  | case1 => exact List.suffix_rfl
  | case2 s => exact List.suffix_rfl
  | case3 c s _ _ ih => exact ih.trans (List.suffix_cons c s)
  | case4 c s _ _ => exact List.suffix_rfl

theorem suffix_of_readValueAfter {doubled ready : Bool} {s value rest : Text}
    (h : readValueAfter doubled s = some (value, ready, rest)) : rest <:+ s := by
  have ht : trimLeft s <:+ s := List.dropWhile_suffix _
  unfold readValueAfter at h
  split at h
  · rename_i c t hs
    rw [hs] at ht
    split at h
    · split at h
      · rename_i v r hcut
        cases h
        exact ((suffix_of_cut? hcut).trans (List.suffix_cons c t)).trans ht
      · split at h
        · cases h
          exact List.suffix_rfl
        · split at h
          · cases h
            exact (List.dropWhile_suffix _).trans ht
          · cases h
    · cases h
      exact (List.dropWhile_suffix _).trans ht
  · cases h
    exact List.nil_suffix

theorem suffix_of_readValue? {ready : Bool} {s value rest : Text}
    (h : readValue? s = some (value, ready, rest)) : rest <:+ s := by
  have ht : trimLeft s <:+ s := List.dropWhile_suffix _
  unfold readValue? at h
  split at h
  · rename_i t hs
    rw [hs] at ht
    exact (((suffix_of_readValueAfter h).trans (List.dropWhile_suffix _)).trans
      (List.suffix_cons (char '=') t)).trans ht
  · cases h

theorem of_readAttr? {ready : Bool} {s rest : Text} {a : Text × Text}
    (h : readAttr? s = some (a, ready, rest)) : NameStandsIn s a.1 ∧ rest <:+ s := by
  unfold readAttr? at h
  split at h
  · cases h
  · rename_i c t
    split at h
    · have hname : c :: t.takeWhile isAttrNameChar <:+: c :: t :=
        (List.cons_prefix_cons.2 ⟨rfl, List.takeWhile_prefix _⟩).isInfix
      have hafter : t.dropWhile isAttrNameChar <:+ c :: t :=
        (List.dropWhile_suffix _).trans (List.suffix_cons c t)
      dsimp only at h
      split at h
      · rename_i value r rest hvalue
        cases h
        exact ⟨⟨_, hname, rfl⟩, (suffix_of_readValue? hvalue).trans hafter⟩
      · cases h
        exact ⟨⟨_, hname, rfl⟩, hafter⟩
    · cases h

theorem of_readAttrs (ready : Bool) (s : Text) :
    (∀ a ∈ (readAttrs ready s).1, NameStandsIn s a.1) ∧ (readAttrs ready s).2 <:+ s := by
  fun_induction readAttrs ready s with
  | case1 ready s gap _ attr ready' rest hread attrs rest' hmore ih =>
      have hgap : gap <:+ s := skipGap_suffix s
      obtain ⟨hname, hrest⟩ := of_readAttr? hread
      rw [hmore] at ih
      have hs := hrest.trans hgap
      refine ⟨fun a ha => ?_, ih.2.trans hs⟩
      rcases List.mem_cons.1 ha with rfl | ha
      exacts [hname.mono hgap.isInfix, (ih.1 a ha).mono hs.isInfix]
  | case2 ready s gap _ _ => exact ⟨by simp, skipGap_suffix s⟩
  | case3 ready s gap _ => exact ⟨by simp, skipGap_suffix s⟩

/-- Attributes that are read have no number that is too long, and their references are
replaced. -/
theorem of_ofAttrs {attrs : List (Text × Text)} {reading : List (Text × Text) → Reading}
    {r : Reading} (h : .ofAttrs attrs reading = r) (hr : ∀ n, r ≠ .overlong n) :
    (∀ a ∈ attrs, CharRef.overlongIn? a.2 = none) ∧
      reading (attrs.map fun (name, value) => (name, CharRef.unescape value)) = r := by
  unfold Reading.ofAttrs at h
  split at h
  · exact absurd h.symm (hr _)
  · rename_i hnone
    exact ⟨List.findSome?_eq_none_iff.1 hnone, h⟩

/-- A start tag has its name and its attribute names from the text it is read off. -/
theorem of_read_tag {s rest : Text} {tag : StartTag} (h : read s = .tag tag rest) :
    TagStandsIn ('<' :: s) tag.name ∧ (∀ a ∈ tag.attrs, NameStandsIn s a.1) ∧ rest <:+ s := by
  unfold read at h
  dsimp only at h
  have htag : TagStandsIn ('<' :: s) (lower (s.takeWhile isNameChar)) :=
    ⟨_, (List.cons_prefix_cons.2 ⟨rfl, List.takeWhile_prefix _⟩).isInfix, rfl⟩
  have hname : s.dropWhile isNameChar <:+ s := List.dropWhile_suffix _
  obtain ⟨hattrs, hrest⟩ := of_readAttrs
    (((s.takeWhile isNameChar).getLast?.map endsPiece).getD false) (s.dropWhile isNameChar)
  -- the references in the values are replaced, the names stay
  have hnames : ∀ a ∈ (readAttrs (((s.takeWhile isNameChar).getLast?.map endsPiece).getD false)
      (s.dropWhile isNameChar)).1.map fun (name, value) => (name, CharRef.unescape value),
      NameStandsIn s a.1 := by
    intro a ha
    obtain ⟨b, hb, rfl⟩ := List.mem_map.1 ha
    exact (hattrs b hb).mono hname.isInfix
  split at h
  · rename_i r hr
    cases (of_ofAttrs h nofun).2
    rw [hr] at hrest
    exact ⟨htag, hnames, ((List.suffix_cons _ _).trans hrest).trans hname⟩
  · rename_i r hr
    cases (of_ofAttrs h nofun).2
    rw [hr] at hrest
    exact ⟨htag, hnames, (List.IsSuffix.trans ⟨[char '/', char '>'], rfl⟩ hrest).trans hname⟩
  · cases h
  · split at h
    · cases h
    · cases (of_ofAttrs h nofun).2

theorem suffix_of_read_text {s rest : Text} (h : read s = .text rest) : rest <:+ s := by
  unfold read at h
  dsimp only at h
  have hname : s.dropWhile isNameChar <:+ s := List.dropWhile_suffix _
  have hrest := (of_readAttrs
    (((s.takeWhile isNameChar).getLast?.map endsPiece).getD false) (s.dropWhile isNameChar)).2
  split at h
  · cases (of_ofAttrs h nofun).2
  · cases (of_ofAttrs h nofun).2
  · cases h
  · rename_i c t hr
    split at h
    · cases h
    · cases (of_ofAttrs h nofun).2
      exact hrest.trans hname

end StartTag

/-! ## Tokens -/

/-- Whether a token, if it is a start tag, has its name and its attribute names from a text. -/
def Token.IsFrom (s : Text) : Token → Prop
  | .start _ tag => TagStandsIn s tag.name ∧ ∀ a ∈ tag.attrs, NameStandsIn s a.1
  | .close _ => True
  | .text _ _ => True

theorem Token.IsFrom.mono {s t : Text} {token : Token} (h : token.IsFrom s) (hst : s <:+: t) :
    token.IsFrom t := by
  cases token with
  | start p tag => exact ⟨h.1.mono hst, fun a ha => (h.2 a ha).mono hst⟩
  | close name => trivial
  | text kind content => trivial

theorem Token.IsPassive.isFrom {token : Token} (h : token.IsPassive) (s : Text) : token.IsFrom s := by
  cases token with
  | start p tag => exact h.elim
  | close name => trivial
  | text kind content => trivial

namespace Step

/-- The tokens that a step finds, and the rest that it leaves. -/
def found : Step → List Token × Text
  | .go tokens _ rest => (tokens, rest)
  | .stop tokens rest => (tokens, rest)

/-- Whether some tokens and a rest are read off a text. -/
def IsFrom (s : Text) (found : List Token × Text) : Prop :=
  (∀ t ∈ found.1, t.IsFrom s) ∧ found.2 <:+ s

/-- Whether no start tag is found, and what is left is left of a text. -/
def PassesOver (s : Text) (found : List Token × Text) : Prop :=
  (∀ t ∈ found.1, t.IsPassive) ∧ found.2 <:+ s

theorem PassesOver.isFrom {s : Text} {found : List Token × Text} (h : PassesOver s found) :
    IsFrom s found :=
  ⟨fun t ht => (h.1 t ht).isFrom s, h.2⟩

theorem passesOver_nil {s rest : Text} (h : rest <:+ s) : PassesOver s ([], rest) :=
  ⟨by simp, h⟩

theorem passesOver_plain (u : Text) {s rest : Text} (h : rest <:+ s) :
    PassesOver s ([plain u], rest) :=
  ⟨by simp [plain, Token.IsPassive], h⟩

theorem inRawText_passesOver (name s : Text) : PassesOver s (inRawText name s).found := by
  unfold inRawText
  split
  · exact passesOver_nil List.suffix_rfl
  · rename_i front text rest hcut
    have hrest := suffix_of_cutAt? (RawText.goesOn_afterSpacedEndTag? name) hcut
    split
    · exact ⟨by simp [found, plain, Token.IsPassive], hrest⟩
    · exact passesOver_plain _ hrest

theorem passesOver_of_ofReference {last : Bool} {s : Text} {step : Step}
    (h : ofReference last s = .ok step) : PassesOver ('&' :: s) step.found := by
  have hs : s <:+ char '&' :: s := List.suffix_cons (char '&') s
  have hself : PassesOver ('&' :: s) ([], char '&' :: s) := passesOver_nil List.suffix_rfl
  unfold ofReference at h
  split at h
  · cases h
    exact hself
  · rename_i r
    have hr : r <:+ char '&' :: char '#' :: r := ⟨['&', '#'], rfl⟩
    split at h
    · rename_i n rest hnumber
      cases h
      exact passesOver_plain _ ((Token.suffix_of_readNumber? hnumber).trans hr)
    · split at h
      · cases h
        exact passesOver_plain _ hr
      · cases h
        exact hself
    · cases h
  · split at h
    · split at h
      · rename_i name rest href
        cases h
        exact passesOver_plain _ ((Token.suffix_of_readRefName? href).trans hs)
      · split at h
        · cases h
          exact passesOver_nil hs
        · cases h
          exact hself
    · cases h
      exact passesOver_plain _ hs

/-- What follows a `<` is a start tag, which has the position of the `<`, or has none in front. -/
theorem ofMarkup_cases {p : Position} {s rest : Text} {ts : List Token} {mode : Mode}
    (h : ofMarkup p s = .ok (some (ts, mode, rest))) :
    PassesOver s (ts, rest) ∨ ∃ tag, ts = [.start p tag] ∧
      (s.head?.map CodePoint.isAlpha).getD false = true ∧ StartTag.read s = .tag tag rest := by
  have hpassed : ∀ {c : CodePoint} {r : Text} {found : Option (List Token × Text)},
      (∀ ts rest, found = some (ts, rest) → PassesOver r (ts, rest)) →
      found.map (fun x => (x.1, Mode.markup, x.2)) = some (ts, mode, rest) →
      PassesOver (c :: r) (ts, rest) := by
    intro c r found hfound e
    obtain ⟨⟨ts', rest'⟩, hsome, e⟩ := Option.map_eq_some_iff.1 e
    cases e
    obtain ⟨hts, hrest⟩ := hfound _ _ hsome
    exact ⟨hts, hrest.trans (List.suffix_cons c r)⟩
  unfold ofMarkup at h
  dsimp only at h
  split at h
  · exact .inl (hpassed (fun _ _ => Token.of_readEndTag?) (Except.ok.inj h))
  · exact .inl (hpassed (fun _ _ => Token.of_readUpToClose?) (Except.ok.inj h))
  · obtain ⟨found, hread, e⟩ := eq_of_map_ok h
    exact .inl (hpassed (fun _ _ e => Token.of_readDeclaration? (hread.trans (congrArg _ e))) e)
  · split at h
    · rename_i halpha
      unfold ofStartTag at h
      split at h
      · rename_i tag r hread
        cases h
        exact .inr ⟨tag, rfl, halpha, hread⟩
      · rename_i r hread
        cases h
        exact .inl (passesOver_plain _ (StartTag.suffix_of_read_text hread))
      · cases h
      · cases h
    · cases h
      exact .inl (passesOver_plain _ List.suffix_rfl)
  · cases h

/-- A step passes over some text, or reads a start tag behind the `<` that it stands in front
of. -/
theorem next_cases {last : Bool} {mode : Mode} {p : Position} {s : Text} {step : Step}
    (h : next last mode p s = .ok step) :
    PassesOver s step.found ∨ ∃ r tag, mode = .markup ∧ s = char '<' :: r ∧
      step.found.1 = [.start p tag] ∧ (r.head?.map CodePoint.isAlpha).getD false = true ∧
      StartTag.read r = .tag tag step.found.2 := by
  unfold next at h
  split at h
  · cases h
    exact .inl (inRawText_passesOver _ s)
  · split at h
    · rename_i r
      have hr : r <:+ char '<' :: r := List.suffix_cons (char '<') r
      obtain ⟨found, hread, h⟩ := eq_of_bind_ok h
      cases found with
      | none =>
          dsimp only at h
          split at h
          · cases h
            exact .inl (passesOver_plain _ ((Token.strayText_suffix r).trans hr))
          · cases h
            exact .inl (passesOver_nil List.suffix_rfl)
      | some found =>
          obtain ⟨ts, mode', rest⟩ := found
          cases h
          rcases ofMarkup_cases hread with ⟨hts, hrest⟩ | ⟨tag, rfl, halpha, htag⟩
          · exact .inl ⟨hts, hrest.trans hr⟩
          · exact .inr ⟨r, tag, rfl, rfl, rfl, halpha, htag⟩
    · exact .inl (passesOver_of_ofReference h)
    · cases h
      exact .inl (passesOver_plain _ (List.dropWhile_suffix _))

/-- A step finds its tokens in the text that it reads, and leaves a suffix of it. -/
theorem next_isFrom {last : Bool} {mode : Mode} {position : Position} {s : Text} {step : Step}
    (h : next last mode position s = .ok step) : IsFrom s step.found := by
  rcases next_cases h with hpassed | ⟨r, tag, -, rfl, hfound, -, hread⟩
  · exact hpassed.isFrom
  · have hr : r <:+ char '<' :: r := List.suffix_cons (char '<') r
    obtain ⟨htag, hnames, hrest⟩ := StartTag.of_read_tag hread
    refine ⟨?_, hrest.trans hr⟩
    rw [hfound, List.forall_mem_singleton]
    exact ⟨htag, fun a ha => (hnames a ha).mono hr.isInfix⟩

/-- A step that finds a start tag stands in front of its `<`, and goes on behind the tag. -/
theorem of_mem_next {last : Bool} {mode : Mode} {p q : Position} {s : Text} {step : Step}
    {tag : StartTag} (h : next last mode p s = .ok step) (htag : .start q tag ∈ step.found.1) :
    q = p ∧ mode = .markup ∧ ∃ r, s = char '<' :: r ∧
      (r.head?.map CodePoint.isAlpha).getD false = true ∧
      StartTag.read r = .tag tag step.found.2 := by
  rcases next_cases h with hpassed | ⟨r, tag', hmode, hs, hfound, halpha, hread⟩
  · exact (hpassed.1 _ htag).elim
  · rw [hfound, List.mem_singleton] at htag
    obtain ⟨rfl, rfl⟩ := Token.start.inj htag
    exact ⟨rfl, hmode, r, hs, halpha, hread⟩

end Step

namespace Cursor

/-- A pass finds its tokens in the rest of the source, and leaves a suffix of it. -/
theorem pass_isFrom {last : Bool} {c final : Cursor} {ts : List Token}
    (h : c.pass last = .ok (ts, final)) : Step.IsFrom c.rest (ts, final.rest) := by
  fun_induction pass last c generalizing ts final with
  | case1 c _ =>
      cases h
      exact ⟨by simp, List.suffix_rfl⟩
  | case2 c _ rejection _ => cases h
  | case3 c _ tokens rest hnext =>
      cases h
      exact Step.next_isFrom hnext
  | case4 c _ tokens mode rest hnext _ ih =>
      obtain ⟨htokens, hrest⟩ := Step.next_isFrom hnext
      obtain ⟨found, hmore, h⟩ := eq_of_bind_ok h
      cases h
      obtain ⟨hfound, hfinal⟩ := ih hmore
      refine ⟨fun t ht => ?_, hfinal.trans hrest⟩
      rcases List.mem_append.1 ht with ht | ht
      exacts [htokens t ht, (hfound t ht).mono hrest.isInfix]
  | case5 c _ tokens mode rest hnext _ =>
      cases h
      exact ⟨(Step.next_isFrom hnext).1, List.suffix_rfl⟩

/-- The tokens of what is left of a source: those of two passes, and what the second leaves. -/
def tokens (c : Cursor) : Except ReadError (List Token) := do
  let (first, paused) ← c.pass false
  let (second, final) ← paused.pass true
  let left := if final.mode = .markup && !final.rest.isEmpty then [Step.plain final.rest] else []
  .ok (first ++ second ++ left)

/-- Tokens come from one pass or from the other, or are what is left and hold no start tag. -/
theorem exists_passes {c : Cursor} {ts : List Token} (h : c.tokens = .ok ts) :
    ∃ first paused second final left, c.pass false = .ok (first, paused) ∧
      paused.pass true = .ok (second, final) ∧ ts = first ++ second ++ left ∧
      ∀ t ∈ left, t.IsPassive := by
  obtain ⟨⟨first, paused⟩, hfirst, h⟩ := eq_of_bind_ok h
  obtain ⟨⟨second, final⟩, hsecond, h⟩ := eq_of_bind_ok h
  refine ⟨first, paused, second, final, _, hfirst, hsecond, (Except.ok.inj h).symm, ?_⟩
  split <;> simp [Step.plain, Token.IsPassive]

theorem tokens_isFrom {c : Cursor} {ts : List Token} (h : c.tokens = .ok ts) :
    ∀ t ∈ ts, t.IsFrom c.rest := by
  obtain ⟨first, paused, second, final, left, hfirst, hsecond, rfl, hleft⟩ := exists_passes h
  obtain ⟨hts, hrest⟩ := pass_isFrom hfirst
  obtain ⟨hts', -⟩ := pass_isFrom hsecond
  intro t ht
  simp only [List.mem_append] at ht
  rcases ht with (ht | ht) | ht
  exacts [hts t ht, (hts' t ht).mono hrest.isInfix, (hleft t ht).isFrom c.rest]

end Cursor

/-- When a piece of the source is read, the tokens of the source are those of the piece and
those of what is left. -/
theorem ReadsAs.tokens {mode mode' : Mode} {p : Position} {s r : Text} {tags : List Tag}
    (h : ReadsAs false mode mode' p s tags r) : ∃ ts : List Token,
      ts.filterMap Token.opened? = tags ∧ Cursor.tokens ⟨mode, p, s ++ r⟩
        = (Cursor.tokens ⟨mode', p.advance s, r⟩).map (ts ++ ·) := by
  obtain ⟨ts, hts, hpass⟩ := h
  refine ⟨ts, hts, ?_⟩
  unfold Cursor.tokens
  rw [hpass]
  cases Cursor.pass false ⟨mode', p.advance s, r⟩ with
  | error e => rfl
  | ok found =>
      simp only [Except.map, bind, Except.bind]
      cases found.2.pass true with
      | error e => rfl
      | ok second => simp

/-! ## Elements -/

theorem nameStandsIn_of_opened {s name : Text} {t : Token} {tag : Tag} (ht : t.IsFrom s)
    (hopened : t.opened? = some tag) (hname : tag.attrs.has name = true) : NameStandsIn s name := by
  cases t with
  | start p start =>
      cases hopened
      rw [Table.has_iff, Table.mem_names_ofPairs, List.mem_map] at hname
      obtain ⟨a, ha, rfl⟩ := hname
      exact ht.2 a ha
  | close n => cases hopened
  | text kind content => cases hopened

/-- Every start tag of a tree is a token of its source. -/
theorem exists_tokens_of_mem_tagsOf {source : Text} {nodes : List Node}
    (h : Node.ofSource source = .ok nodes) {tag : Tag} (htag : tag ∈ tagsOf nodes) :
    ∃ ts, tokens source = .ok ts ∧ ∃ t ∈ ts, t.opened? = some tag := by
  obtain ⟨ts, hts, -⟩ := eq_of_map_ok h
  obtain ⟨nodes', hnodes, htags⟩ := tagsOf_ofSource hts
  obtain rfl := Except.ok.inj (h.symm.trans hnodes)
  rw [htags, List.mem_filterMap] at htag
  exact ⟨ts, hts, htag⟩

/-- Every start tag of a tree is a token that is read off its source. -/
theorem exists_token_of_mem_tagsOf {source : Text} {nodes : List Node}
    (h : Node.ofSource source = .ok nodes) {tag : Tag} (htag : tag ∈ tagsOf nodes) :
    ∃ t : Token, t.IsFrom source ∧ t.opened? = some tag := by
  obtain ⟨ts, hts, t, ht, hopened⟩ := exists_tokens_of_mem_tagsOf h htag
  exact ⟨t, Cursor.tokens_isFrom hts t ht, hopened⟩

/-- The attributes of the elements of a source are named by pieces of the source. -/
theorem nameStandsIn_of_mem_tagsOf {source name : Text} {nodes : List Node}
    (h : Node.ofSource source = .ok nodes) {tag : Tag} (htag : tag ∈ tagsOf nodes)
    (hname : tag.attrs.has name = true) : NameStandsIn source name := by
  obtain ⟨t, ht, hopened⟩ := exists_token_of_mem_tagsOf h htag
  exact nameStandsIn_of_opened ht hopened hname

/-- The elements of a source are named by what stands behind a `<` of the source. -/
theorem tagStandsIn_of_mem_tagsOf {source : Text} {nodes : List Node}
    (h : Node.ofSource source = .ok nodes) {tag : Tag} (htag : tag ∈ tagsOf nodes) :
    TagStandsIn source tag.name := by
  obtain ⟨t, ht, hopened⟩ := exists_token_of_mem_tagsOf h htag
  cases t with
  | start p start =>
      cases hopened
      exact ht.1
  | close n => cases hopened
  | text kind content => cases hopened

/-- Behind a start tag at the front of a source, attributes are named by pieces of what follows
the tag. -/
theorem tagsOf_openTag {t : OpenTag} (ht : t.WellFormed) {r : Text} {nodes : List Node}
    (h : Node.ofSource (t.source ++ r) = .ok nodes) :
    ∃ tags, tagsOf nodes = t.tagAt .origin :: tags ∧
      ∀ tag ∈ tags, ∀ name, tag.attrs.has name = true → NameStandsIn r name := by
  obtain ⟨ts, hts, hread⟩ := (readsAs_openTag ht false .origin r).tokens
  have hsource : tokens (t.source ++ r)
      = (Cursor.tokens ⟨t.contentMode, Position.origin.advance t.source, r⟩).map (ts ++ ·) := hread
  cases hrest : Cursor.tokens ⟨t.contentMode, Position.origin.advance t.source, r⟩ with
  | error e =>
      rw [hrest] at hsource
      rw [Node.ofSource, hsource] at h
      cases h
  | ok us =>
      rw [hrest] at hsource
      obtain ⟨nodes', hnodes, htags⟩ := tagsOf_ofSource hsource
      obtain rfl := Except.ok.inj (h.symm.trans hnodes)
      rw [List.filterMap_append, hts] at htags
      refine ⟨_, htags, fun tag htag name hname => ?_⟩
      obtain ⟨u, hu, hopened⟩ := List.mem_filterMap.1 htag
      exact nameStandsIn_of_opened (Cursor.tokens_isFrom hrest u hu) hopened hname

end Stencil.Html
