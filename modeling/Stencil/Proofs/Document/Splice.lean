import Stencil.Proofs.Document.Quiet
import Stencil.Proofs.Work

set_option autoImplicit false

/-! # Replacing elements that do not hold each other

When no element that a selector takes stands inside another one, replacing them one after the
other is a recursion over the document, whatever effects the replacements have: up to the
element that is next, the text holds only what was put in and what was passed over, and both
are quiet.
-/

namespace Stencil.Html

open Text

/-! ## The elements of a document -/

namespace Document

/-- Whether no element that a selector takes stands inside another one. -/
def IsFlat (sel : Selector) (d : Document) : Prop :=
  ∀ x ∈ d.elements, x.1.selectedBy sel = true → x.2.Untouched sel

theorem selected_of_untouched {sel : Selector} {d : Document} (h : d.Untouched sel)
    (p : Position) : d.selected sel p = [] := by
  induction d generalizing p with
  | text s => rfl
  | element before tag content rest ihc ihr =>
      have hthis : sel.selects (tag.matchAt (p.advance before) content).tag = false :=
        h (tag, content) (by simp)
      have hc := ihc (fun x hx => h x (by simp [hx])) (p.advance (before ++ tag.source))
      have hr := ihr (fun x hx => h x (by simp [hx]))
        (p.advance (before ++ tag.source ++ content.source ++ endTagText tag.name))
      rw [selected] at hc hr ⊢
      rw [matchesFrom, List.filter_cons_of_neg (by simp [hthis]), List.filter_append, hc, hr]
      rfl

theorem selected_element (sel : Selector) (p : Position) (before : Text) (tag : OpenTag)
    (content rest : Document) :
    (element before tag content rest).selected sel p
      = (if tag.selectedBy sel then [tag.matchAt (p.advance before) content] else [])
        ++ (content.selected sel (p.advance (before ++ tag.source))
        ++ rest.selected sel
            (p.advance (before ++ tag.source ++ content.source ++ endTagText tag.name))) := by
  have hthis : sel.selects (tag.matchAt (p.advance before) content).tag = tag.selectedBy sel := rfl
  cases h : tag.selectedBy sel with
  | true =>
      rw [selected, matchesFrom, List.filter_cons_of_pos (by rw [hthis, h]), List.filter_append]
      rfl
  | false =>
      rw [selected, matchesFrom, List.filter_cons_of_neg (by simp [hthis, h]), List.filter_append]
      rfl

end Document

/-! ## One replacement -/

section

variable {m : Type → Type} [Monad m] {fn : Match → m Text} {part : Part}

theorem patch_cons (body : Text) (found : Match) (ms : List Match) :
    patch fn part body (found :: ms) = patchOne fn part body found >>= (patch fn part · ms) := by
  rw [patch, List.foldlM_cons]
  rfl

/-- What is found in the tree is replaced and nothing else, unless something is left over. -/
theorem replaceMatches_of_gives [LawfulMonad m] {sel : Selector} {limit : Option Int}
    {markup : Text} {found : List Match} (h : matchesIn markup sel limit = .ok found)
    (hgives : Gives (fun body => part = .outer → ∀ name, sel.bareName? = some name →
      leftovers name body = []) (patch fn part markup found)) :
    replaceMatches fn part sel limit markup = ExceptT.lift (patch fn part markup found) := by
  have hfound : (liftM (Except.ok found : Except Overlong _) : ExceptT Overlong m _) = pure found :=
    rfl
  rw [replaceMatches, h, hfound, pure_bind]
  refine (hgives.lift _ pure fun body hbody => ?_).trans (bind_pure _)
  split
  · rename_i name hname
    rw [hbody rfl name hname]
    rfl
  · rfl

/-- Unless a name is looked for outside the tree, nothing is left over. -/
theorem replaceMatches_eq_patch [LawfulMonad m] {sel : Selector} {limit : Option Int}
    {markup : Text} {found : List Match} (hname : part = .outer → sel.bareName? = none)
    (h : matchesIn markup sel limit = .ok found) :
    replaceMatches fn part sel limit markup = ExceptT.lift (patch fn part markup found) :=
  replaceMatches_of_gives h fun _ f g hfg => bind_congr fun body =>
    hfg body fun hpart name e => by rw [hname hpart] at e; cases e

/-- No start tag is looked for outside the tree. -/
theorem replaceMatches_start_eq_patch [LawfulMonad m] {sel : Selector} {limit : Option Int}
    {markup : Text} {found : List Match} (h : matchesIn markup sel limit = .ok found) :
    replaceMatches fn .start sel limit markup = ExceptT.lift (patch fn .start markup found) :=
  replaceMatches_eq_patch nofun h

/-- Where there is nothing to replace, nothing is replaced. -/
theorem Document.WellFormed.replaceMatches_of_untouched [LawfulMonad m] {sel : Selector}
    {limit : Option Int} {d : Document} (h : d.WellFormed) (hd : d.Untouched sel) :
    replaceMatches fn part sel limit d.source = pure d.source := by
  have hfound : matchesIn d.source sel limit = .ok [] := by
    rw [h.matchesIn_source, selected_of_untouched hd, takeUpTo_nil]
  rw [replaceMatches_of_gives hfound, patch, List.foldlM_nil, ExceptT.lift_pure]
  exact gives_pure fun _ name hname => (h.quiet hd).leftovers_eq_nil hname

/-- A captured text is replaced where it stands first. -/
theorem patchOne_of_cut? {body a b : Text} {found : Match} (hne : found.part part ≠ [])
    (h : cut? (found.part part) body = some (a, b)) :
    patchOne fn part body found = fn found >>= fun v => pure (a ++ v ++ b) := by
  have hsome : (found.part part).isEmpty = false := by simpa using hne
  rw [patchOne]
  simp only [hsome, contains_of_cut? h, Bool.not_true, Bool.or_self, Bool.false_eq_true, if_false,
    replaceFirst_of_cut? _ h]

/-- Behind a text without tags of its kind, a captured text is replaced where it stands. -/
theorem patchOne_of_everyTag {P : Text → Prop} {pre x y post : Text} {found : Match}
    (hpre : EveryTag P pre) (hx : char '>' ∉ x) (hP : ¬ P x)
    (hpart : found.part part = char '<' :: (x ++ char '>' :: y)) :
    patchOne fn part (pre ++ found.part part ++ post) found
      = fn found >>= fun v => pure (pre ++ v ++ post) := by
  have hcut : cut? ('<' :: (x ++ char '>' :: y)) (pre ++ char '<' :: (x ++ char '>' :: y) ++ post)
      = some (pre, post) := hpre.cut?_append hx hP
  rw [← hpart] at hcut
  exact patchOne_of_cut? (by simp [hpart]) hcut

/-- The text of a whole element of a document. -/
theorem outer_matchAt (t : OpenTag) (p : Position) (content : Document) :
    (t.matchAt p content).part .outer
      = char '<' :: (t.inside ++ char '>' :: (content.source ++ endTagText t.name)) := by
  simp [Match.part, Match.outer, OpenTag.matchAt, OpenTag.source]

theorem patchOne_outer {sel : Selector} {t : OpenTag} (ht : t.WellFormed)
    (hsel : t.selectedBy sel = true) {pre : Text} (hpre : Quiet sel pre) (post : Text)
    (p : Position) (content : Document) :
    patchOne fn .outer (pre ++ (t.source ++ content.source ++ endTagText t.name) ++ post)
        (t.matchAt p content)
      = fn (t.matchAt p content) >>= fun v => pure (pre ++ v ++ post) :=
  patchOne_of_everyTag hpre ht.gt_not_mem
    (by rw [isQuietInside_inside ht, hsel]; decide) (outer_matchAt t p content)

end

/-! ## All replacements -/

section

variable {m : Type → Type} [Monad m]

/-- A document with the elements replaced that a selector takes. -/
def Document.splice (sel : Selector) (f : OpenTag → Document → m Text) : Document → m Text
  | text s => pure s
  | element before tag content rest =>
      if tag.selectedBy sel then do
        let v ← f tag content
        let r ← rest.splice sel f
        pure (before ++ v ++ r)
      else do
        let c ← content.splice sel f
        let r ← rest.splice sel f
        pure (before ++ tag.source ++ c ++ endTagText tag.name ++ r)

variable [LawfulMonad m] {sel : Selector} {f : OpenTag → Document → m Text} {fn : Match → m Text}

/-- What is put in is quiet, and so is the whole result. -/
theorem Document.WellFormed.gives_splice {d : Document} (h : d.WellFormed)
    (hq : ∀ x ∈ d.elements, x.1.selectedBy sel = true → Gives (Quiet sel) (f x.1 x.2)) :
    Gives (Quiet sel) (d.splice sel f) := by
  induction d with
  | text s =>
      cases h with
      | text hs => exact gives_pure (everyTag_of_isRunning hs)
  | element before tag content rest ihc ihr =>
      have hr := ihr h.rest fun x hx => hq x (by simp [hx])
      have hb : Quiet sel before := everyTag_of_isRunning h.before
      rw [splice]
      split
      · rename_i hsel
        refine (hq (tag, content) (by simp) hsel).bind fun v hv => ?_
        exact hr.bind fun r hr => gives_pure ((hb.append hv).append hr)
      · rename_i hsel
        rw [Bool.not_eq_true] at hsel
        have hopen : Quiet sel tag.source := h.tag.quiet_source hsel
        have hclose : Quiet sel (endTagText tag.name) := h.tag.quiet_endTagText hsel
        have hc : Gives (Quiet sel) (content.splice sel f) := by
          cases h with
          | element _ _ _ hc _ => exact ihc hc fun x hx => hq x (by simp [hx])
          | raw _ _ _ hcss _ => exact gives_pure (everyTag_of_not_mem hcss)
        refine hc.bind fun c hc => hr.bind fun r hr => gives_pure ?_
        exact (((hb.append hopen).append hc).append hclose).append hr

/-- An element that is taken is replaced where it stands, and the replacements go on behind it. -/
theorem Document.patch_of_selected {before : Text} {tag : OpenTag} {content rest : Document}
    (ht : tag.WellFormed) (hsel : tag.selectedBy sel = true) (hcontent : content.Untouched sel)
    {pre : Text} (hpre : Quiet sel (pre ++ before)) (post : Text) (p : Position) (ms : List Match) :
    patch fn .outer (pre ++ (element before tag content rest).source ++ post)
        ((element before tag content rest).selected sel p ++ ms)
      = fn (tag.matchAt (p.advance before) content) >>= fun v =>
          patch fn .outer (pre ++ before ++ v ++ (rest.source ++ post))
            (rest.selected sel
              (p.advance (before ++ tag.source ++ content.source ++ endTagText tag.name))
            ++ ms) := by
  have hsource : pre ++ (element before tag content rest).source ++ post
      = pre ++ before ++ (tag.source ++ content.source ++ endTagText tag.name)
        ++ (rest.source ++ post) := by simp [Document.source]
  rw [selected_element, if_pos hsel, hsource, selected_of_untouched hcontent, List.nil_append,
    List.singleton_append, List.cons_append, patch_cons, patchOne_outer ht hsel hpre, bind_assoc]
  simp only [pure_bind]

/-- The matches of a document are replaced from left to right, each where it stands. -/
theorem Document.WellFormed.patch_splice {d : Document} (h : d.WellFormed)
    (hflat : d.IsFlat sel)
    (hfn : ∀ x ∈ d.elements, x.1.selectedBy sel = true →
      ∀ p, fn (x.1.matchAt p x.2) = f x.1 x.2)
    (hq : ∀ x ∈ d.elements, x.1.selectedBy sel = true → Gives (Quiet sel) (f x.1 x.2))
    {pre : Text} (hpre : Quiet sel pre) (post : Text) (p : Position) (ms : List Match) :
    patch fn .outer (pre ++ d.source ++ post) (d.selected sel p ++ ms)
      = d.splice sel f >>= fun t => patch fn .outer (pre ++ t ++ post) ms := by
  induction d generalizing pre post p ms with
  | text s =>
      rw [splice, pure_bind]
      rfl
  | element before tag content rest ihc ihr =>
      have hb : Quiet sel before := everyTag_of_isRunning h.before
      have hrest := fun {pre : Text} (hpre : Quiet sel pre) =>
        ihr h.rest (fun x hx => hflat x (by simp [hx])) (fun x hx => hfn x (by simp [hx]))
          (fun x hx => hq x (by simp [hx])) hpre post
      rw [splice]
      split
      · -- the element is replaced, and nothing inside it is selected
        rename_i hsel
        rw [patch_of_selected h.tag hsel (hflat (tag, content) (by simp) hsel) (hpre.append hb),
          hfn (tag, content) (by simp) hsel, bind_assoc]
        refine hq (tag, content) (by simp) hsel _ _ fun v hv => ?_
        rw [bind_assoc]
        have key := hrest ((hpre.append hb).append hv)
          (p.advance (before ++ tag.source ++ content.source ++ endTagText tag.name)) ms
        simp only [pure_bind]
        simpa using key
      · -- the element is passed over
        rename_i hsel
        rw [selected_element, if_neg hsel]
        rw [Bool.not_eq_true] at hsel
        have hopen : Quiet sel tag.source := h.tag.quiet_source hsel
        have hclose : Quiet sel (endTagText tag.name) := h.tag.quiet_endTagText hsel
        have hpre' : Quiet sel (pre ++ before ++ tag.source) := (hpre.append hb).append hopen
        have hcontent : ∀ post p ms,
            patch fn .outer (pre ++ before ++ tag.source ++ content.source ++ post)
                (content.selected sel p ++ ms)
              = content.splice sel f >>= fun t =>
                  patch fn .outer (pre ++ before ++ tag.source ++ t ++ post) ms := by
          intro post p ms
          cases h with
          | element _ _ _ hc _ =>
              exact ihc hc (fun x hx => hflat x (by simp [hx])) (fun x hx => hfn x (by simp [hx]))
                (fun x hx => hq x (by simp [hx])) hpre' post p ms
          | raw _ _ _ hcss _ =>
              rw [splice, pure_bind]
              rfl
        have hgives : Gives (Quiet sel) (content.splice sel f) := by
          cases h with
          | element _ _ _ hc _ =>
              exact hc.gives_splice fun x hx => hq x (by simp [hx])
          | raw _ _ _ hcss _ => exact gives_pure (everyTag_of_not_mem hcss)
        have hsource : pre ++ (Document.element before tag content rest).source ++ post
            = pre ++ before ++ tag.source ++ content.source
              ++ (endTagText tag.name ++ rest.source ++ post) := by simp [Document.source]
        rw [hsource, List.nil_append, List.append_assoc (content.selected sel _), hcontent,
          bind_assoc]
        refine hgives _ _ fun c hc => ?_
        have key := hrest ((hpre'.append hc).append hclose)
          (p.advance (before ++ tag.source ++ content.source ++ endTagText tag.name)) ms
        rw [bind_assoc]
        simp only [pure_bind]
        simpa using key

/-- Replacing the elements that a selector takes in the source of a document. -/
theorem Document.WellFormed.replaceMatches_splice {d : Document} (h : d.WellFormed)
    (hflat : d.IsFlat sel)
    (hfn : ∀ x ∈ d.elements, x.1.selectedBy sel = true →
      ∀ p, fn (x.1.matchAt p x.2) = f x.1 x.2)
    (hq : ∀ x ∈ d.elements, x.1.selectedBy sel = true → Gives (Quiet sel) (f x.1 x.2)) :
    replaceMatches fn .outer sel none d.source = ExceptT.lift (d.splice sel f) := by
  have hpatch := h.patch_splice hflat hfn hq (everyTag_of_not_mem (s := []) (by simp)) [] .origin []
  simp only [List.nil_append, List.append_nil] at hpatch
  have hrun : patch fn .outer d.source (d.selected sel .origin) = d.splice sel f :=
    hpatch.trans (bind_pure _)
  rw [replaceMatches_of_gives (h.matchesIn_all sel), hrun]
  rw [hrun]
  exact (h.gives_splice hq).mono fun body hbody _ name hname => hbody.leftovers_eq_nil hname

end

end Stencil.Html
