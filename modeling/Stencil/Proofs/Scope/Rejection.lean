import Stencil.Proofs.Scope.Compile
import Stencil.Proofs.Source.Numbers

set_option autoImplicit false

/-! # How compiling fails

Where elements are looked for, markup that the reader rejects counts as markup without elements. One
step reads markup without that care: a fragment whose style sheets have been confined is asked
whether it is a wrapper. No step takes care of a number with too many digits. So compiling ends
with a text, with the failure that imports are nested too deep, with the rejection of a fragment
there, or with such a number.

What each step can fail with is carried through `replaceMatches` by a property of work that holds
of results, of such a number, and of work followed by work (`IsSequential`).
-/

namespace Stencil

open Text Html Vocabulary

/-! ## What work can fail with -/

/-- A property of work that is kept by doing one thing after the other, and that reading too many
digits has. -/
structure IsSequential {m : Type → Type} [Monad m] (P : ExceptT Overlong m Text → Prop) : Prop where
  pure : ∀ t, P (Pure.pure t)
  bind : ∀ x f, P x → (∀ t, P (f t)) → P (x >>= f)
  throw : ∀ n, maxDigits < n.digits → P (MonadExcept.throw n)

namespace IsSequential

variable {m : Type → Type} [Monad m] [LawfulMonad m] {P : ExceptT Overlong m Text → Prop}
  {fn : Match → m Text}

theorem lift_bind (h : IsSequential P) {x : m Text} {f : Text → m Text}
    (hx : P (ExceptT.lift x)) (hf : ∀ t, P (ExceptT.lift (f t))) : P (ExceptT.lift (x >>= f)) := by
  have key : (ExceptT.lift (x >>= f) : ExceptT Overlong m Text)
      = ExceptT.lift x >>= fun t => ExceptT.lift (f t) := by
    refine ExceptT.ext ?_
    rw [ExceptT.run_bind_lift, ExceptT.run_lift, map_bind]
    rfl
  rw [key]
  exact h.bind _ _ hx hf

theorem patch (h : IsSequential P) (hfn : ∀ found, P (ExceptT.lift (fn found))) (part : Part)
    (ms : List Match) (body : Text) : P (ExceptT.lift (Html.patch fn part body ms)) := by
  have hpure : ∀ t, P (ExceptT.lift (Pure.pure t)) := fun t => by
    rw [ExceptT.lift_pure]
    exact h.pure t
  have hone : ∀ body found, P (ExceptT.lift (patchOne fn part body found)) := by
    intro body found
    rw [patchOne]
    split
    exacts [hpure body, h.lift_bind (hfn found) fun _ => hpure _]
  induction ms generalizing body with
  | nil => exact hpure body
  | cons found ms ih =>
      rw [patch_cons]
      exact h.lift_bind (hone body found) ih

/-- Elements are found, or a number has too many digits. -/
theorem matchesIn_bind (h : IsSequential P) {markup : Text} {sel : Selector} {limit : Option Int}
    {f : List Match → ExceptT Overlong m Text} (hf : ∀ found, P (f found)) :
    P (liftM (matchesIn markup sel limit) >>= f) := by
  cases hfound : matchesIn markup sel limit with
  | ok found => exact (pure_bind found f).symm ▸ hf found
  | error n =>
      have hthrow : (liftM (Except.error n : Except Overlong (List Match)) >>= f)
          = MonadExcept.throw n := by
        refine ExceptT.ext ?_
        rw [ExceptT.run_bind]
        exact (pure_bind _ _).trans rfl
      rw [hthrow]
      exact h.throw n (holdsNumber_of_matchesIn hfound).long

/-- Replacing elements does nothing but the replacements. -/
theorem replaceMatches (h : IsSequential P) (hfn : ∀ found, P (ExceptT.lift (fn found)))
    (part : Part) (sel : Selector) (limit : Option Int) (markup : Text) :
    P (Html.replaceMatches fn part sel limit markup) := by
  rw [Html.replaceMatches]
  refine h.matchesIn_bind fun found => h.bind _ _ (h.patch hfn part found markup) fun body => ?_
  split
  · refine iteInduction (fun _ => h.pure body) fun _ => h.matchesIn_bind fun found => ?_
    exact h.patch hfn _ found body
  · exact h.pure body

end IsSequential

namespace Work

variable {α β : Type} {E : Failure → Prop}

/-- Whether work fails, in any session, only in one of some ways. -/
def FailsWith (E : Failure → Prop) (x : Work α) : Prop := ∀ s, x.Ends s (fun _ _ => True) E

theorem failsWith_pure (a : α) : FailsWith E (pure a) := fun _ => ends_pure trivial

theorem failsWith_throw {e : Failure} (h : E e) : FailsWith E (throw e : Work α) := fun _ =>
  ends_throw h

theorem FailsWith.bind {x : Work α} {f : α → Work β} (hx : FailsWith E x)
    (hf : ∀ a, FailsWith E (f a)) : FailsWith E (x >>= f) := fun s =>
  (hx s).bind fun a s' _ => hf a s'

theorem failsWith_lift {x : Except Overlong α} (h : ∀ n, x = .error n → E (.overlong n)) :
    FailsWith E (liftM x : Work α) := by
  cases x with
  | ok a => exact failsWith_pure a
  | error n => exact failsWith_throw (h n rfl)

section

variable (hlong : ∀ n, maxDigits < n.digits → E (.overlong n))

include hlong

theorem isSequential_failsWith :
    IsSequential fun x : ExceptT Overlong Work Text => FailsWith E (orFail x) where
  pure t := by
    rw [orFail_pure]
    exact failsWith_pure t
  bind x f hx hf := by
    rw [orFail_bind fun _ _ => rfl]
    exact hx.bind hf
  throw n hn := by
    rw [orFail_throw]
    exact failsWith_throw (hlong n hn)

theorem isSequential_failsWith_run {σ : Type} :
    IsSequential fun x : ExceptT Overlong (StateT σ Work) Text =>
      ∀ a, FailsWith E ((orFail x).run a) where
  pure t a := by
    rw [orFail_pure]
    exact failsWith_pure (t, a)
  bind x f hx hf a := by
    rw [orFail_bind fun _ _ => rfl, StateT.run_bind]
    exact (hx a).bind fun r => hf r.1 r.2
  throw n hn a := by
    rw [orFail_throw]
    exact failsWith_throw (hlong n hn)

end

/-- Replacing begins with the first element that is found. -/
theorem exists_orFail_replaceMatches_eq {m : Type → Type} [Monad m] [LawfulMonad m]
    [MonadExceptOf Failure m] (fn : Match → m Text) (part : Part) {sel : Selector}
    {limit : Option Int} {markup : Text} {found : Match} {ms : List Match}
    (h : matchesIn markup sel limit = .ok (found :: ms)) :
    ∃ later, orFail (replaceMatches fn part sel limit markup)
      = patchOne fn part markup found >>= later := by
  have hfound : (liftM (Except.ok (found :: ms) : Except Overlong _) : ExceptT Overlong m _)
      = pure (found :: ms) := rfl
  rw [replaceMatches, h, hfound, pure_bind, patch_cons]
  exact ⟨_, (orFail_lift_bind _ _).trans (bind_assoc _ _ _)⟩

/-- Nothing comes after a failure. -/
theorem outcome_bind_eq_error {x : Work α} {s : Session} {e : Failure}
    (h : (outcome x s).1 = .error e) (f : α → Work β) : (outcome (x >>= f) s).1 = .error e := by
  rw [outcome_bind]
  generalize outcome x s = r at h ⊢
  rcases r with ⟨e' | a, s'⟩
  · exact congrArg Except.error (Except.error.inj h)
  · cases h

end Work

/-- Replacing without effects fails only for a number with too many digits. -/
theorem isSequential_long :
    IsSequential fun x : ExceptT Overlong Id Text =>
      ∀ n, x.run = .error n → maxDigits < n.digits where
  pure t n h := by cases h
  bind x f hx hf n h := by
    rw [ExceptT.run_bind] at h
    cases hrun : (x.run : Except Overlong Text) with
    | error m =>
        rw [hrun] at h
        cases h
        exact hx n hrun
    | ok t =>
        rw [hrun] at h
        exact hf t n h
  throw n hn m h := by
    cases h
    exact hn


/-! ## Scoping -/

namespace Scope

variable {markers : Markers} {inherited : Scope} {t : Text} {s : Session} {E : Failure → Prop}

/-- Confining a style sheet does not fail, whether it can be read or not. -/
theorem failsWith_confineBlock (found : Match) (scope : Scope) :
    Work.FailsWith E ((confineBlock markers found).run scope) := by
  have hdraw : Work.FailsWith E
      (StateT.run (Work.draw markers : StateT Scope Work Text) scope) := fun s => trivial
  rw [confineBlock]
  simp only [StateT.run_bind]
  refine hdraw.bind fun r => ?_
  split
  · exact fun s => trivial
  · exact fun s => trivial

/-- What stands in a fragment once its style sheets are confined in a session. -/
def ConfinesTo (markers : Markers) (s : Session) (t body : Text) : Prop :=
  ∃ own s', Work.outcome
    ((Work.orFail (replaceMatches (confineBlock markers) .outer scopedSheets none t)).run empty) s
      = (.ok (body, own), s')

/-- Whether the reader rejects a fragment once its style sheets are confined in a session. -/
def Rejects (markers : Markers) (s : Session) (t : Text) (r : Rejection) : Prop :=
  ∃ body, ConfinesTo markers s t body ∧ Wrapper.encloses body = .error (.rejected r)

section

variable (hlong : ∀ n, maxDigits < n.digits → E (.overlong n))

include hlong

/-- Confining the style sheets of a fragment fails only for a number with too many digits. -/
theorem failsWith_confine (scope : Scope) :
    Work.FailsWith E ((Work.orFail
      (replaceMatches (confineBlock markers) .outer scopedSheets none t)).run scope) := by
  have hfn : ∀ found a, Work.FailsWith E
      ((Work.orFail (ExceptT.lift (confineBlock markers found))).run a) := fun found a => by
    rw [Work.orFail_lift]
    exact failsWith_confineBlock found a
  exact (Work.isSequential_failsWith_run hlong).replaceMatches hfn .outer scopedSheets none t scope

omit hlong in
theorem long_of_stamp {names : List Text} {sel : Selector} {limit : Option Int} {n : Overlong}
    (h : stamp names sel limit t = .error n) : maxDigits < n.digits := by
  rw [stamp] at h
  split at h
  · cases h
  · exact isSequential_long.replaceMatches (fun found m hm => by cases hm) .start sel limit t n h

omit hlong in
theorem long_of_encloses {n : Overlong} (h : Wrapper.encloses t = .error (.overlong n)) :
    maxDigits < n.digits := by
  rw [Wrapper.encloses] at h
  split at h
  · cases h
  · cases hnodes : Node.ofSource t with
    | ok nodes => rw [hnodes] at h; cases h
    | error e => rw [hnodes] at h; cases h; exact (holdsNumber_of_ofSource hnodes).long

/-- Scoping fails with the rejection of the fragment with its style sheets confined, or with a
number with too many digits. -/
theorem ends_scopeStylesOf_failing
    (hrejected : ∀ r, Rejects markers s t r → E (.rejected r)) :
    (scopeStylesOf inherited markers t).Ends s (fun _ _ => True) E := by
  rw [scopeStylesOf]
  refine (failsWith_confine hlong empty s).with_outcome.bind ?_
  rintro ⟨body, own⟩ s' ⟨-, hrun⟩
  have hstamps : ∀ wrapped, Work.FailsWith E (do
      let marked ← liftM (stamp (own.loose.map looseAttr) (.ofAttr wrapperAttr) (some 1) wrapped)
      let stamped ← liftM
        (stamp ((inherited.append own).strict.map strictAttr) stampedElements none marked)
      pure (stamped, inherited.append own)) := fun wrapped =>
    (Work.failsWith_lift fun n h => hlong n (long_of_stamp h)).bind fun marked =>
      (Work.failsWith_lift fun n h => hlong n (long_of_stamp h)).bind fun stamped =>
        Work.failsWith_pure _
  dsimp only
  cases hencloses : Wrapper.encloses body with
  | ok b =>
      cases b <;>
        · simp only [pure_bind]
          exact hstamps _ s'
  | error e =>
      cases e with
      | rejected r => exact Work.ends_throw (hrejected r ⟨body, ⟨own, s', hrun⟩, hencloses⟩)
      | overlong n => exact Work.ends_throw (hlong n (long_of_encloses hencloses))

end

/-- Scoping fails with a rejection when the reader rejects the fragment with its style sheets
confined, and only then. -/
theorem outcome_scopeStylesOf_eq_rejected_iff {r : Rejection} :
    (Work.outcome (scopeStylesOf inherited markers t) s).1 = .error (.rejected r) ↔
      Rejects markers s t r := by
  constructor
  · intro h
    have hends : (scopeStylesOf inherited markers t).Ends s (fun _ _ => True)
        fun e => ∀ r, e = .rejected r → Rejects markers s t r :=
      ends_scopeStylesOf_failing (fun n _ r h => by cases h) fun r hr r' h => by cases h; exact hr
    exact hends.of_error (Prod.ext h rfl) r rfl
  · rintro ⟨body, ⟨own, s', hrun⟩, hrejected⟩
    rw [scopeStylesOf, Work.outcome_bind, hrun]
    dsimp only
    rw [hrejected]
    rfl

end Scope

/-! ## Compiling -/

namespace Compiler

variable {c : Compiler}

/-- Whether the reader rejects the fragment that an import stands for. -/
def RejectsAt (c : Compiler) (s : Session) (found : Match) (r : Rejection) : Prop :=
  ∃ text, c.fragment found = .ok text ∧ Scope.Rejects c.markers s text r

/-- What compiling can fail with: imports that are nested too deep, a fragment that the reader
rejects, and a number with too many digits. -/
def IsFailure (c : Compiler) : Failure → Prop
  | .tooDeep limit => limit = c.maxDepth
  | .rejected r => ∃ s found, c.RejectsAt s found r
  | .overlong n => maxDigits < n.digits ∨ ∃ text, c.markdown text = .error n

theorem isFailure_overlong {n : Overlong} (h : maxDigits < n.digits) : c.IsFailure (.overlong n) :=
  Or.inl h

theorem failsWith_expandImport {compile : Slots → Scope → Text → Work Text}
    (hcompile : ∀ slots scope body, Work.FailsWith c.IsFailure (compile slots scope body))
    (scope : Scope) (found : Match) :
    Work.FailsWith c.IsFailure (c.expandImport compile scope found) := by
  intro s
  have hfragment : ∀ n, c.fragment found = .error n → ∃ text, c.markdown text = .error n := by
    intro n h
    unfold fragment at h
    dsimp only at h
    split at h
    · cases hmarkdown : c.markdown _ with
      | ok text => rw [hmarkdown] at h; cases h
      | error m => rw [hmarkdown] at h; cases h; exact ⟨_, hmarkdown⟩
    · cases h
  have hcontent : ∀ n, Slots.ofContent found.inner = .error n → maxDigits < n.digits := by
    intro n h
    rw [Slots.ofContent] at h
    cases hfound : matchesIn found.inner (.ofName templateTag) none with
    | ok ms => rw [hfound] at h; cases h
    | error m => rw [hfound] at h; cases h; exact (holdsNumber_of_matchesIn hfound).long
  rw [expandImport]
  cases htext : c.fragment found with
  | error n => exact Work.ends_throw (Or.inr (hfragment n htext))
  | ok text =>
      rw [Work.lift_ok_bind]
      refine (Work.failsWith_lift (fun n h => isFailure_overlong (hcontent n h)) s).bind ?_
      intro slots s _
      refine Work.Ends.bind (Scope.ends_scopeStylesOf_failing (fun n => isFailure_overlong)
        fun r hr => ⟨s, found, text, htext, hr⟩) ?_
      exact fun r s _ => hcompile slots r.2 r.1 s

/-- Every level fails only so. -/
theorem failsWith_template (levels : Nat) : ∀ slots scope body,
    Work.FailsWith c.IsFailure (c.template levels slots scope body) := by
  induction levels with
  | zero => exact fun _ _ _ => Work.failsWith_throw rfl
  | succ levels ih =>
      intro slots scope body
      rw [template]
      refine (Work.failsWith_lift fun n h => isFailure_overlong ?_).bind fun filled => ?_
      · exact isSequential_long.replaceMatches (fun found m hm => by cases hm) .outer _ _ _ n h
      · refine iteInduction (fun _ => ?_) fun _ => Work.failsWith_pure _
        have hfn : ∀ found, Work.FailsWith c.IsFailure
            (Work.orFail (ExceptT.lift (c.expandImport (c.template levels) scope found))) :=
          fun found => by
            rw [Work.orFail_lift]
            exact failsWith_expandImport ih scope found
        have hexpand := (Work.isSequential_failsWith fun n => isFailure_overlong).replaceMatches hfn
          .outer (.ofName importTag) none
        refine (hexpand filled).bind fun expanded => Work.failsWith_lift fun n h =>
          isFailure_overlong ?_
        exact isSequential_long.replaceMatches (fun found m hm => by cases hm) .outer _ _ _ n h

/-- A page whose first import stands for a fragment that is rejected is not compiled. -/
theorem outcome_compile_of_rejectsAt {d : Document} (hd : d.WellFormed) (hslots : d.Lacks slotTag)
    (hdepth : 0 ≤ c.maxDepth) {found : Match} {ms : List Match}
    (hmatches : matchesIn d.source (.ofName importTag) none = .ok (found :: ms)) {s : Session}
    {r : Rejection} (hrejects : c.RejectsAt s found r) :
    (Work.outcome (c.compile d.source) s).1 = .error (.rejected r) := by
  obtain ⟨text, htext, hrejects⟩ := hrejects
  have hmem : found ∈ d.selected (.ofName importTag) .origin := by
    rw [Except.ok.inj ((hd.matchesIn_all (.ofName importTag)).symm.trans hmatches)]
    exact List.mem_cons_self
  obtain ⟨x, hx, q, rfl⟩ := Document.exists_of_mem_matchesFrom (List.mem_filter.1 hmem).1
  have hn : x.1.name = importTag := hd.name_of_selected (by decide) hx (List.mem_filter.1 hmem).2
  have hcontent := Slots.ofContent_source (hd.content_of_not_raw x hx (hn ▸ by decide))
  obtain ⟨n, hlevels⟩ : ∃ n, c.levelsAt 0 = n + 1 := ⟨c.maxDepth.toNat, by rw [levelsAt]; omega⟩
  have hexpand : (Work.outcome (c.expandImport (c.template n) .empty (x.1.matchAt q x.2)) s).1
      = .error (.rejected r) := by
    rw [expandImport, htext, Work.lift_ok_bind]
    show (Work.outcome (liftM (Slots.ofContent x.2.source) >>= _ : Work Text) s).1 = _
    rw [hcontent, Work.lift_ok_bind]
    exact Work.outcome_bind_eq_error (Scope.outcome_scopeStylesOf_eq_rejected_iff.2 hrejects) _
  -- the text of the import stands in the page, so its turn is not passed over
  have hone : (Work.outcome (patchOne (c.expandImport (c.template n) .empty) .outer d.source
      (x.1.matchAt q x.2)) s).1 = .error (.rejected r) := by
    have hpresent : contains d.source ((x.1.matchAt q x.2).part .outer) = true :=
      (contains_iff _ _).2 (Document.exists_source_eq hx)
    have hsome : ((x.1.matchAt q x.2).part .outer).isEmpty = false := by
      rw [outer_matchAt]
      rfl
    rw [patchOne, hpresent, hsome]
    exact Work.outcome_bind_eq_error hexpand _
  have hall : (Work.outcome (c.expandImports (c.template n) .empty d.source) s).1
      = .error (.rejected r) := by
    obtain ⟨later, hfirst⟩ := Work.exists_orFail_replaceMatches_eq
      (c.expandImport (c.template n) .empty) .outer hmatches
    rw [expandImports, hfirst]
    exact Work.outcome_bind_eq_error hone _
  have himport : holdsImport d.source = true := by
    by_contra hnone
    exact lacks_of_holdsImport (Bool.not_eq_true _ ▸ hnone) x hx hn
  rw [compile, templateAt, hlevels, template]
  simp only [hd.expandSelfClosing_source, Slots.fillAll_of_lacks _ hd hslots, Work.lift_ok_bind,
    himport, if_true]
  exact Work.outcome_bind_eq_error hall _

/-- Scoping rejects just those fragments that the reader rejects once their style sheets are
confined. Compiling ends with a text, on imports that are nested too deep, on such a fragment, or
on a number with too many digits, and it does not get past such a fragment. -/
theorem compile_fails_only (c : Compiler) (s : Session) :
    (∀ inherited t r, (Work.outcome (Scope.scopeStylesOf inherited c.markers t) s).1
        = .error (.rejected r) ↔ Scope.Rejects c.markers s t r) ∧
      (∀ page, (c.compile page).Ends s (fun _ _ => True) c.IsFailure) ∧
      ∀ d : Document, d.WellFormed → d.Lacks slotTag → 0 ≤ c.maxDepth → ∀ found ms r,
        matchesIn d.source (.ofName importTag) none = .ok (found :: ms) → c.RejectsAt s found r →
          (Work.outcome (c.compile d.source) s).1 = .error (.rejected r) :=
  ⟨fun _ _ _ => Scope.outcome_scopeStylesOf_eq_rejected_iff,
    fun page => failsWith_template (c.levelsAt 0) Slots.none .empty page s,
    fun _ hd hslots hdepth _ _ _ hmatches hrejects =>
      outcome_compile_of_rejectsAt hd hslots hdepth hmatches hrejects⟩

/-- A compiler that knows a fragment with a marked section of an unknown kind. -/
def sectionCompiler : Compiler where
  store := ⟨"_imports".text, "_imports".text, [("_imports/a.html".text, "<![x[y]]>".text)]⟩
  activeClass := []
  markdown := .ok
  maxDepth := 50
  markers := fun _ => []

/-- A page that imports such a fragment is not compiled. -/
theorem compile_section :
    ((sectionCompiler.compile "<sergey-import src=\"a\"></sergey-import>".text).outcome .start).1
      = .error (.rejected (.unknownSection "x".text)) := by
  decide +kernel

/-- A page with such an import behind a paragraph. -/
def sectionPage : Document :=
  .element [] (.bare ['p']) (.text "x".text) <|
  .element [] ⟨importTag, [⟨[' '], "src".text, "a".text⟩], []⟩ (.text []) (.text [])

theorem compile_fails_only_sectionPage :
    sectionPage.WellFormed ∧ sectionPage.Lacks slotTag ∧ 0 ≤ sectionCompiler.maxDepth ∧
      (∃ found, matchesIn sectionPage.source (.ofName importTag) none = .ok [found] ∧
        sectionCompiler.RejectsAt .start found (.unknownSection "x".text)) ∧
      (Work.outcome (sectionCompiler.compile sectionPage.source) .start).1
        = .error (.rejected (.unknownSection "x".text)) := by
  have hpage : sectionPage.WellFormed := by decide +kernel
  have hslots : sectionPage.Lacks slotTag := by decide +kernel
  have hdepth : 0 ≤ sectionCompiler.maxDepth := by decide
  have hfound := hpage.matchesIn_all (.ofName importTag)
  have hrejects : sectionCompiler.RejectsAt .start
      ((⟨importTag, [⟨[' '], "src".text, "a".text⟩], []⟩ : OpenTag).matchAt
        (Position.origin.advance "<p>x</p>".text) (.text [])) (.unknownSection "x".text) := by
    refine ⟨"<![x[y]]>".text, by decide +kernel, "<![x[y]]>".text, ⟨.empty, .start, ?_⟩, ?_⟩
    · decide +kernel
    · decide +kernel
  refine ⟨hpage, hslots, hdepth, ⟨_, hfound, hrejects⟩, ?_⟩
  exact (compile_fails_only sectionCompiler .start).2.2 sectionPage hpage hslots hdepth _ _ _ hfound
    hrejects

end Compiler

end Stencil
