import Stencil.Compiler
import Stencil.Proofs.Source.Inclusion
import Stencil.Proofs.Source.Numbers

set_option autoImplicit false

/-! # Pages with nothing to do

A page that says neither `sergey` nor `<style` and has no custom element that closes itself is
published as it stands, however broken its markup is. The page may be rejected: then nothing is
found in it. When it is read, no element has one of the names that are looked for, since a name
of an element stands behind a `<` of the page.

Only a number with too many digits stops the reading of the page, and then it is not published.
-/

namespace Stencil

open Text Html Vocabulary

namespace Html

/-! ## Names that no tag has -/

/-- A name of small letters that stands in a text as it is written there. -/
theorem TagStandsIn.of_infix {s name : Text} (hname : lower name = name)
    (h : char '<' :: name <:+: s) : TagStandsIn s name :=
  ⟨name, h, hname.symm⟩

theorem leftoversFrom_eq_nil_of_not_infix {name s : Text} (k : Nat)
    (h : ¬ char '<' :: name <:+: s) :
    leftoversFrom name k s = [] := by
  have hlater : ∀ {c : CodePoint} {t : Text}, ¬ char '<' :: name <:+: c :: t →
      ¬ char '<' :: name <:+: t :=
    fun hc ht => hc (ht.trans (List.suffix_cons _ _).isInfix)
  fun_induction leftoversFrom name k s with
  | case1 k => rfl
  | case2 k c s ih => exact ih (hlater h)
  | case3 c s rest hrest length ih =>
      obtain ⟨r, hr, -⟩ := Option.bind_eq_some_iff.1 hrest
      have hfront := (after?_eq_some_iff _ _ _).1 hr
      exact absurd (hfront ▸ (List.prefix_append _ r).isInfix) h
  | case4 c s hnone ih => exact ih (hlater h)

/-! ## Sources that are not read -/

/-- The number with too many digits that stops the reading of a source in which elements are
looked for. -/
def unreadNumber? (source : Text) : Option Overlong :=
  if source.elem (char '<') then
    match Node.ofSource source with
    | .error (.overlong n) => some n
    | _ => none
  else none

theorem holdsNumber_of_unreadNumber? {source : Text} {n : Overlong}
    (h : unreadNumber? source = some n) : HoldsNumber source n := by
  unfold unreadNumber? at h
  split at h
  · split at h
    · rename_i m hread
      cases h
      exact holdsNumber_of_ofSource hread
    · cases h
  · cases h

theorem matchesIn_of_unreadNumber? {source : Text} {n : Overlong}
    (h : unreadNumber? source = some n) (sel : Selector) (limit : Option Int) : matchesIn source sel limit = .error n := by
  unfold unreadNumber? at h
  split at h
  · rename_i hlt
    split at h
    · rename_i m hread
      cases h
      rw [matchesIn, hlt, hread]
      rfl
    · cases h
  · cases h

/-- In a source that is rejected, and in one whose elements are of no interest, nothing is found. -/
theorem matchesIn_of_unselected {source : Text} {sel : Selector} (h : unreadNumber? source = none)
    (hsel : ∀ nodes, Node.ofSource source = .ok nodes → ∀ tag ∈ tagsOf nodes,
      sel.selects tag = false) : matchesIn source sel none = .ok [] := by
  by_cases hlt : source.elem (char '<') = true
  · rw [unreadNumber?, if_pos hlt] at h
    cases hread : Node.ofSource source with
    | ok nodes => exact matchesIn_eq_nil hread (hsel nodes hread)
    | error e =>
        cases e with
        | rejected r =>
            rw [matchesIn, hlt, hread]
            rfl
        | overlong n => rw [hread] at h; cases h
  · rw [matchesIn, if_pos (by simpa using hlt)]

/-- A source as far as it is read: itself, or the number at which the reading stops. -/
def asRead (source : Text) : Except Overlong Text :=
  match unreadNumber? source with
  | some n => .error n
  | none => .ok source

/-- Where no element is of interest, replacing the elements only reads the source. -/
theorem replaceMatches_of_unselected {m : Type → Type} [Monad m] [LawfulMonad m]
    {fn : Match → m Text} {part : Part} {sel : Selector} {s : Text}
    (hsel : ∀ nodes, Node.ofSource s = .ok nodes → ∀ tag ∈ tagsOf nodes, sel.selects tag = false)
    (hleft : ∀ name, sel.bareName? = some name → leftovers name s = []) :
    replaceMatches fn part sel none s = liftM (asRead s) := by
  unfold asRead
  cases hnumber : unreadNumber? s with
  | some n =>
      rw [replaceMatches, matchesIn_of_unreadNumber? hnumber]
      exact ExceptT.ext (pure_bind _ _)
  | none =>
      rw [replaceMatches_of_gives (matchesIn_of_unselected hnumber hsel), patch, List.foldlM_nil,
        ExceptT.lift_pure]
      · rfl
      · exact gives_pure fun _ => hleft

/-- Nothing is replaced in a source without a start tag of the name, be it accepted or not. -/
theorem replaceMatches_of_not_tagStandsIn {m : Type → Type} [Monad m] [LawfulMonad m]
    {fn : Match → m Text} {name s : Text} (hname : lower name = name) (h : ¬ TagStandsIn s name) :
    replaceMatches fn .outer (.ofName name) none s = liftM (asRead s) := by
  have hsmall : name.map CodePoint.toLower = name := hname ▸ map_toLower_lower name
  refine replaceMatches_of_unselected (fun nodes hnodes tag htag => ?_) fun name' hbare => ?_
  · have htagname := tagStandsIn_of_mem_tagsOf hnodes htag
    have hne : tag.name ≠ name := fun e => h (e ▸ htagname)
    obtain ⟨n, -, hlower⟩ := htagname
    have hsame : sameName name tag.name = false := by
      rw [sameName_iff hsmall (hlower ▸ map_toLower_lower n)]
      exact decide_eq_false hne
    simp [Selector.selects, Selector.ofName, hsame]
  · -- the name that is looked for in values of attributes is the name of the selector
    have hself : name' = name :=
      Option.some.inj (congrArg Selector.name (bareName?_eq_some hbare)).symm
    rw [hself]
    exact leftoversFrom_eq_nil_of_not_infix 0 fun hfront => h (TagStandsIn.of_infix hname hfront)

end Html

/-! ## The vocabulary -/

theorem not_infix_of_not_mentionsVocabulary {s p : Text} (hs : ¬ MentionsVocabulary s)
    (hp : vocabularyWord <:+: p.map CodePoint.toLower) : ¬ p <:+: s :=
  fun h => hs (hp.trans (h.map CodePoint.toLower))

theorem contains_of_not_mentionsVocabulary {s p : Text} (hs : ¬ MentionsVocabulary s)
    (hp : vocabularyWord <:+: p.map CodePoint.toLower) : contains s p = false := by
  rw [contains_eq_false_iff]
  exact fun a b e => not_infix_of_not_mentionsVocabulary hs hp ⟨a, b, e.symm⟩

theorem not_tagStandsIn_of_not_mentionsVocabulary {s name : Text} (hs : ¬ MentionsVocabulary s)
    (hname : vocabularyWord <:+: name) : ¬ TagStandsIn s name := by
  rintro ⟨n, hn, rfl⟩
  have hword : vocabularyWord <:+: n.map CodePoint.toLower :=
    infix_of_lower (by decide) (by decide) hname
  exact not_infix_of_not_mentionsVocabulary hs hword
    ((List.suffix_cons (char '<') n).isInfix.trans hn)

/-! ## Style sheets -/

/-- Whether a text holds `<style`, in any mixture of small letters and capitals. -/
def MentionsSheet (s : Text) : Prop := char '<' :: sheetName <:+: s.map CodePoint.toLower

instance : DecidablePred MentionsSheet := fun s =>
  inferInstanceAs (Decidable (char '<' :: sheetName <:+: s.map CodePoint.toLower))

theorem not_tagStandsIn_of_not_mentionsSheet {s : Text} (hs : ¬ MentionsSheet s) :
    ¬ TagStandsIn s sheetName := by
  rintro ⟨n, hn, hname⟩
  have hfront : sheetName <+: n.map CodePoint.toLower :=
    prefix_of_lowerFrom (by decide) (b := []) (hname.symm.trans (List.append_nil _).symm)
  have htag : char '<' :: sheetName <+: (char '<' :: n).map CodePoint.toLower :=
    List.cons_prefix_cons.2 ⟨rfl, hfront⟩
  exact hs (htag.isInfix.trans (hn.map CodePoint.toLower))

/-! ## The stages of a page -/

/-- Clearing only reads markup that does not say `sergey`, be it accepted or not. -/
theorem clear_of_not_mentionsVocabulary {s : Text} (hs : ¬ MentionsVocabulary s)
    (hclosed : expandSelfClosing s = s) : Wrapper.clear s = asRead s := by
  rw [Wrapper.clear, hclosed,
    replaceMatches_of_unselected (fun nodes hnodes tag htag => ?_) fun name hbare => by cases hbare]
  · rfl
  · have hattr := hasAttr_of_not_mentionsVocabulary hs vocabularyWord_infix_wrapperAttr
      (by decide) fun name => nameStandsIn_of_mem_tagsOf hnodes htag
    simp [Selector.selects, Selector.ofAttr, hattr]

theorem Slots.fillAll_of_not_mentionsVocabulary {s : Text} (hs : ¬ MentionsVocabulary s)
    (slots : Slots) : slots.fillAll s = asRead s := by
  have hslot : ¬ TagStandsIn s slotTag := not_tagStandsIn_of_not_mentionsVocabulary hs (by decide)
  rw [Slots.fillAll, replaceMatches_of_not_tagStandsIn (by decide) hslot]
  rfl

theorem Link.activateAll_of_not_mentionsVocabulary {s : Text} (hs : ¬ MentionsVocabulary s)
    (activeClass path : Text) : Link.activateAll activeClass path s = .ok s := by
  rw [Link.activateAll, contains_of_not_mentionsVocabulary hs (by decide)]
  exact if_neg Bool.false_ne_true

theorem Hoist.styles_of_not_mentionsSheet {s : Text} (hs : ¬ MentionsVocabulary s)
    (hsheet : ¬ MentionsSheet s) (hclosed : expandSelfClosing s = s)
    (hread : asRead s = .ok s) : Hoist.styles s = .ok s := by
  have hnone :
      replaceMatches Hoist.collect .outer (.ofName "style".text) none s = liftM (asRead s) :=
    replaceMatches_of_not_tagStandsIn (by decide) (not_tagStandsIn_of_not_mentionsSheet hsheet)
  have hbind : ∀ f : Text → Except Overlong Text, (Except.ok s >>= f) = f s := fun _ => rfl
  rw [Hoist.styles, clear_of_not_mentionsVocabulary hs hclosed, hread, hbind, hnone, hread]
  rfl

/-! ## Pages -/

namespace Compiler

/-- A level of a template without the vocabulary only reads the template. -/
theorem template_of_not_mentionsVocabulary (c : Compiler) (levels : Nat) (slots : Slots)
    (scope : Scope) {s : Text} (hs : ¬ MentionsVocabulary s) (hclosed : expandSelfClosing s = s) :
    c.template (levels + 1) slots scope s = liftM (asRead s) := by
  have himport : holdsImport s = false := contains_of_not_mentionsVocabulary hs (by decide)
  unfold template
  simp only [hclosed, Slots.fillAll_of_not_mentionsVocabulary hs]
  unfold asRead
  split
  · rfl
  · exact if_neg (by simp [himport])

/-- A page that says neither `sergey` nor `<style`, and in which no custom element closes itself,
is published as it stands, whatever the path and the fragments are, unless its reading stops at a
number with too many digits that it holds. -/
theorem publish_untouched (c : Compiler) (hdepth : 0 ≤ c.maxDepth) {page : Text}
    (hword : ¬ MentionsVocabulary page) (hsheet : ¬ MentionsSheet page)
    (hclosed : ∀ b, b <:+ page → readSelfClosing? b = none) (path : Text) (s : Session) :
    (c.publish path page).outcome s
        = (match unreadNumber? page with
            | some n => .error (.overlong n)
            | none => .ok page, s) ∧
      ∀ n, unreadNumber? page = some n → HoldsNumber page n := by
  refine ⟨?_, fun _ => holdsNumber_of_unreadNumber?⟩
  have hexpand : expandSelfClosing page = page := expandSelfClosing_eq_self_iff.2 hclosed
  have hlevels : c.levelsAt 0 = c.maxDepth.toNat + 1 := by
    unfold levelsAt
    omega
  have hcompile : c.compile page = liftM (asRead page) := by
    rw [compile, templateAt, hlevels]
    exact template_of_not_mentionsVocabulary c _ _ _ hword hexpand
  rw [publish, hcompile]
  cases hnumber : unreadNumber? page with
  | some n =>
      rw [asRead, hnumber]
      rfl
  | none =>
      have hread : asRead page = .ok page := by rw [asRead, hnumber]
      rw [hread]
      show ((do
        let linked ← liftM (Link.activateAll c.activeClass path page)
        liftM (Hoist.styles linked) : Work Text)).outcome s = _
      rw [Link.activateAll_of_not_mentionsVocabulary hword]
      show (liftM (Hoist.styles page) : Work Text).outcome s = _
      rw [Hoist.styles_of_not_mentionsSheet hword hsheet hexpand hread]
      rfl

/-- A page with a broken declaration, an open quote, a stray end tag and an open comment. -/
def brokenPage : Text := "<![x <p a='1> </style> <b></i c=\"/> <!-- ".text

theorem publish_untouched_brokenPage :
    ¬ MentionsVocabulary brokenPage ∧ ¬ MentionsSheet brokenPage ∧
      (∀ b, b <:+ brokenPage → readSelfClosing? b = none) ∧ ¬ IsAccepted brokenPage ∧
      (∀ n, ¬ HoldsNumber brokenPage n) ∧
      ∀ (path : Text) (s : Session),
        ((⟨⟨[], [], []⟩, [], .ok, 0, fun _ => []⟩ : Compiler).publish path brokenPage).outcome s
          = (.ok brokenPage, s) := by
  have hword : ¬ MentionsVocabulary brokenPage := by decide
  have hsheet : ¬ MentionsSheet brokenPage := by decide
  have hclosed : ∀ b, b <:+ brokenPage → readSelfClosing? b = none :=
    expandSelfClosing_eq_self_iff.1 (by decide)
  have hrejected : ¬ IsAccepted brokenPage := by decide +kernel
  have hnumber : ∀ n, ¬ HoldsNumber brokenPage n := not_holdsNumber_of_not_mem (by decide)
  refine ⟨hword, hsheet, hclosed, hrejected, hnumber, fun path s => ?_⟩
  obtain ⟨houtcome, hread⟩ := publish_untouched ⟨⟨[], [], []⟩, [], .ok, 0, fun _ => []⟩
    (Int.le_refl 0) hword hsheet hclosed path s
  have hnone : unreadNumber? brokenPage = none :=
    Option.eq_none_iff_forall_ne_some.2 fun n hn => hnumber n (hread n hn)
  rw [houtcome, hnone]

/-- A paragraph that refers to a character by a number of some digits. -/
def numberPage (digits : Text) : Text :=
  (OpenTag.bare ['p']).source ++ ([char '&', char '#'] ++ (digits ++ ";</p>".text))

/-- A paragraph with a number that has too many digits is not read. -/
theorem unreadNumber?_numberPage {digits : Text} (hdigits : ∀ c ∈ digits, c.isDigit = true)
    (hlong : maxDigits < digits.length) :
    unreadNumber? (numberPage digits) = some ⟨digits.length⟩ := by
  obtain ⟨ts, -, htokens⟩ := (readsAs_openTag (t := .bare ['p']) (by decide) false .origin
    ([char '&', char '#'] ++ (digits ++ ";</p>".text))).tokens
  have hread : Node.ofSource (numberPage digits) = .error (.overlong ⟨digits.length⟩) := by
    show (Cursor.tokens ⟨.markup, .origin, numberPage digits⟩).map _ = _
    rw [numberPage, htokens, show (OpenTag.bare ['p']).contentMode = .markup by decide]
    exact congrArg (fun x => Except.map _ (Except.map _ x))
      (tokens_of_longNumber hdigits hlong _ "</p>".text)
  rw [unreadNumber?, hread]
  exact if_pos (by simp [numberPage, OpenTag.source])

theorem mem_numberPage {digits : Text} {c : CodePoint} (h : c ∈ numberPage digits) :
    c ∈ digits ∨ c ∈ "<p>&#;/".text := by
  rw [numberPage, show (OpenTag.bare ['p']).source = "<p>".text by decide] at h
  simp only [List.mem_append] at h
  rcases h with h | h | h | h
  · exact Or.inr ((show ∀ c ∈ "<p>".text, c ∈ "<p>&#;/".text by decide) c h)
  · exact Or.inr ((show ∀ c ∈ [char '&', char '#'], c ∈ "<p>&#;/".text by decide) c h)
  · exact Or.inl h
  · exact Or.inr ((show ∀ c ∈ ";</p>".text, c ∈ "<p>&#;/".text by decide) c h)

/-- A page with such a number is not published, though nothing is done on it. -/
theorem publish_numberPage :
    ¬ MentionsVocabulary (numberPage (List.replicate 4301 '9')) ∧
      ¬ MentionsSheet (numberPage (List.replicate 4301 '9')) ∧
      (∀ b, b <:+ numberPage (List.replicate 4301 '9') → readSelfClosing? b = none) ∧
      ((⟨⟨[], [], []⟩, [], .ok, 0, fun _ => []⟩ : Compiler).publish []
          (numberPage (List.replicate 4301 '9'))).outcome .start
        = (.error (.overlong ⟨4301⟩), .start) := by
  have hchars : ∀ c ∈ numberPage (List.replicate 4301 '9'), c ∈ "9<p>&#;/".text := by
    intro c hc
    rcases mem_numberPage hc with h | h
    · rw [List.eq_of_mem_replicate h]
      decide
    · exact List.mem_cons_of_mem _ h
  generalize hpage : numberPage (List.replicate 4301 '9') = page at hchars ⊢
  have hlower : ∀ {w : Text}, w <:+: page.map CodePoint.toLower → ∀ c ∈ w, c ∈ "9<p>&#;/".text := by
    intro w hw c hc
    obtain ⟨d, hd, rfl⟩ := List.mem_map.1 (hw.subset hc)
    have hsmall : ∀ d ∈ "9<p>&#;/".text, d.toLower ∈ "9<p>&#;/".text := by decide
    exact hsmall d (hchars d hd)
  have hword : ¬ MentionsVocabulary page := fun h => absurd (hlower h 's' (by decide)) (by decide)
  have hsheet : ¬ MentionsSheet page := fun h => absurd (hlower h 's' (by decide)) (by decide)
  have hclosed : ∀ b, b <:+ page → readSelfClosing? b = none := fun b hb =>
    readSelfClosing?_of_not_mem fun hm => absurd (hchars _ (hb.subset hm)) (by decide)
  refine ⟨hword, hsheet, hclosed, ?_⟩
  have hread := @unreadNumber?_numberPage (List.replicate 4301 '9')
    (fun c hc => List.eq_of_mem_replicate hc ▸ by decide) (by rw [List.length_replicate]; decide)
  rw [hpage, List.length_replicate] at hread
  have key := publish_untouched ⟨⟨[], [], []⟩, [], .ok, 0, fun _ => []⟩ (Int.le_refl 0) hword hsheet
    hclosed [] .start
  rw [key.1, hread]

end Compiler
end Stencil
