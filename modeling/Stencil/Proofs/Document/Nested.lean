import Stencil.Proofs.Document.Occurrence
import Stencil.Proofs.Document.Splice

set_option autoImplicit false

/-! # Replacing elements that hold each other

The matches of a source are taken once, but each is replaced where its text stands first at
its turn. When an element is replaced, those inside it are gone, and yet their turns come; such
a turn takes a copy of the element, if one stands anywhere in the text. A copy that stands by
itself is replaced ahead of its own turn, and no harm is done. A copy inside another element
breaks the text of that one, which is then never found.

The replacements are followed on a list of pieces: what of the text is settled, which elements
still stand in it, and which turns are left over. They clear it (`Clears`) when no turn takes a
copy inside another element, and then every element gives way.
-/

namespace Stencil.Html

open Text

/-! ## The elements that are taken -/

namespace Document

/-- The elements that a selector takes, those inside others too. -/
def chosen (sel : Selector) (d : Document) : List (OpenTag × Document) :=
  d.elements.filter fun x => x.1.selectedBy sel

/-- The elements that a selector takes and that come to stand in no other one, when some of
them are opened: they give way to their content. -/
def exposed (sel : Selector) (opens : OpenTag × Document → Bool) :
    Document → List (OpenTag × Document)
  | text _ => []
  | element _ tag content rest =>
      if tag.selectedBy sel then
        (tag, content) :: ((if opens (tag, content) then content.exposed sel opens else []) ++
          rest.exposed sel opens)
      else content.exposed sel opens ++ rest.exposed sel opens

@[simp] theorem chosen_text (sel : Selector) (s : Text) : (text s).chosen sel = [] := rfl

theorem chosen_element (sel : Selector) (before : Text) (tag : OpenTag) (content rest : Document) :
    (element before tag content rest).chosen sel
      = (if tag.selectedBy sel then [(tag, content)] else []) ++
        (content.chosen sel ++ rest.chosen sel) := by
  rw [chosen, elements_element, List.filter_cons, List.filter_append]
  cases tag.selectedBy sel <;> rfl

theorem chosen_subset_of_mem {sel : Selector} {d : Document} {x : OpenTag × Document}
    (hx : x ∈ d.chosen sel) : x.2.chosen sel ⊆ d.chosen sel := by
  intro z hz
  obtain ⟨hz, hsel⟩ := List.mem_filter.1 hz
  exact List.mem_filter.2 ⟨mem_elements_of_mem_content (List.mem_filter.1 hx).1 hz, hsel⟩

theorem exposed_subset (sel : Selector) (opens : OpenTag × Document → Bool) (d : Document) :
    d.exposed sel opens ⊆ d.chosen sel := by
  induction d with
  | text s => exact List.nil_subset _
  | element before tag content rest ihc ihr =>
      intro x hx
      rw [chosen_element, List.mem_append, List.mem_append]
      rw [exposed] at hx
      split at hx
      · rename_i hsel
        rcases List.mem_cons.1 hx with rfl | hx
        · exact Or.inl (by simp [hsel])
        · rcases List.mem_append.1 hx with hx | hx
          · split at hx
            · exact Or.inr (Or.inl (ihc hx))
            · simp at hx
          · exact Or.inr (Or.inr (ihr hx))
      · rcases List.mem_append.1 hx with hx | hx
        exacts [Or.inr (Or.inl (ihc hx)), Or.inr (Or.inr (ihr hx))]

/-- Opening an element exposes what is exposed in its content. -/
theorem exposed_subset_of_opened {sel : Selector} {opens : OpenTag × Document → Bool}
    {d : Document} {x : OpenTag × Document} (hx : x ∈ d.exposed sel opens) (ho : opens x = true) :
    x.2.exposed sel opens ⊆ d.exposed sel opens := by
  induction d with
  | text s => simp [exposed] at hx
  | element before tag content rest ihc ihr =>
      intro y hy
      rw [exposed] at hx ⊢
      split at hx
      · rename_i hsel
        rw [if_pos hsel]
        refine List.mem_cons_of_mem _ (List.mem_append.2 ?_)
        rcases List.mem_cons.1 hx with rfl | hx
        · rw [if_pos ho]
          exact Or.inl hy
        · rcases List.mem_append.1 hx with hx | hx
          · split at hx
            · rename_i hopen
              rw [if_pos hopen]
              exact Or.inl (ihc hx hy)
            · simp at hx
          · exact Or.inr (ihr hx hy)
      · rename_i hsel
        rw [if_neg hsel]
        rcases List.mem_append.1 hx with hx | hx
        exacts [List.mem_append_left _ (ihc hx hy), List.mem_append_right _ (ihr hx hy)]

end Document

/-! ## Pieces -/

/-- What becomes of a text in the course of the replacements. -/
inductive Piece where
  /-- A text in which nothing is left to replace. -/
  | text (s : Text)
  /-- An element that still stands in the text. -/
  | live (x : OpenTag × Document)
  /-- The turn of an element that is gone. -/
  | turn (x : OpenTag × Document)

namespace Piece

/-- The text of a piece. -/
def source : Piece → Text
  | text s => s
  | live x => elementSource x
  | turn _ => []

/-- The turns that belong to a piece. -/
def turns (sel : Selector) : Piece → List (OpenTag × Document)
  | text _ => []
  | live x => x :: x.2.chosen sel
  | turn x => [x]

/-- The elements of a piece that come to stand in no other one. -/
def exposed (sel : Selector) (opens : OpenTag × Document → Bool) :
    Piece → List (OpenTag × Document)
  | text _ => []
  | live x => x :: (if opens x then x.2.exposed sel opens else [])
  | turn _ => []

theorem flatMap_source_map_turn (xs : List (OpenTag × Document)) :
    (xs.map turn).flatMap source = [] := by
  induction xs with
  | nil => rfl
  | cons x xs ih => rw [List.map_cons, List.flatMap_cons, ih]; rfl

theorem flatMap_turns_map_turn (sel : Selector) (xs : List (OpenTag × Document)) :
    (xs.map turn).flatMap (turns sel) = xs := by
  induction xs with
  | nil => rfl
  | cons x xs ih => rw [List.map_cons, List.flatMap_cons, ih]; rfl

theorem flatMap_exposed_map_turn (sel : Selector) (opens : OpenTag × Document → Bool)
    (xs : List (OpenTag × Document)) : (xs.map turn).flatMap (exposed sel opens) = [] := by
  induction xs with
  | nil => rfl
  | cons x xs ih => rw [List.map_cons, List.flatMap_cons, ih]; rfl

end Piece

namespace Document

/-- A document in pieces. -/
def pieces (sel : Selector) : Document → List Piece
  | text s => [.text s]
  | element before tag content rest =>
      if tag.selectedBy sel then .text before :: .live (tag, content) :: rest.pieces sel
      else .text (before ++ tag.source) ::
        (content.pieces sel ++ .text (endTagText tag.name) :: rest.pieces sel)

theorem flatMap_source_pieces (sel : Selector) (d : Document) :
    (d.pieces sel).flatMap Piece.source = d.source := by
  induction d with
  | text s => simp [pieces, Piece.source, source]
  | element before tag content rest ihc ihr =>
      rw [pieces]
      split
      · simp [List.flatMap_cons, Piece.source, elementSource, ihr, source]
      · simp [List.flatMap_cons, Piece.source, ihc, ihr, source]

theorem flatMap_turns_pieces (sel : Selector) (d : Document) :
    (d.pieces sel).flatMap (Piece.turns sel) = d.chosen sel := by
  induction d with
  | text s => rfl
  | element before tag content rest ihc ihr =>
      rw [pieces, chosen_element]
      split
      · simp [List.flatMap_cons, Piece.turns, ihr]
      · simp [List.flatMap_cons, Piece.turns, ihc, ihr]

theorem flatMap_exposed_pieces (sel : Selector) (opens : OpenTag × Document → Bool) (d : Document) :
    (d.pieces sel).flatMap (Piece.exposed sel opens) = d.exposed sel opens := by
  induction d with
  | text s => rfl
  | element before tag content rest ihc ihr =>
      rw [pieces, exposed]
      split
      · simp [List.flatMap_cons, Piece.exposed, ihr]
      · simp [List.flatMap_cons, Piece.exposed, ihc, ihr]

end Document

/-! ## Results -/

/-- What a text in pieces may become, when every element that still stands in it gives way to a
text it is related to. -/
inductive Becomes (R : OpenTag × Document → Text → Prop) : List Piece → Text → Prop where
  | nil : Becomes R [] []
  | text {s r : Text} {ps : List Piece} : Becomes R ps r → Becomes R (.text s :: ps) (s ++ r)
  | live {x : OpenTag × Document} {v r : Text} {ps : List Piece} : R x v → Becomes R ps r →
      Becomes R (.live x :: ps) (v ++ r)
  | turn {x : OpenTag × Document} {r : Text} {ps : List Piece} : Becomes R ps r →
      Becomes R (.turn x :: ps) r

namespace Becomes

variable {R : OpenTag × Document → Text → Prop}

theorem append_inv {ps qs : List Piece} {t : Text} (h : Becomes R (ps ++ qs) t) :
    ∃ a b, t = a ++ b ∧ Becomes R ps a ∧ Becomes R qs b := by
  induction ps generalizing t with
  | nil => exact ⟨[], t, rfl, .nil, h⟩
  | cons p ps ih =>
      cases h with
      | text h =>
          obtain ⟨a, b, rfl, ha, hb⟩ := ih h
          exact ⟨_, b, by simp, .text ha, hb⟩
      | live hx h =>
          obtain ⟨a, b, rfl, ha, hb⟩ := ih h
          exact ⟨_, b, by simp, .live hx ha, hb⟩
      | turn h =>
          obtain ⟨a, b, rfl, ha, hb⟩ := ih h
          exact ⟨a, b, rfl, .turn ha, hb⟩

theorem append {ps qs : List Piece} {a b : Text} (ha : Becomes R ps a) (hb : Becomes R qs b) :
    Becomes R (ps ++ qs) (a ++ b) := by
  induction ha with
  | nil => exact hb
  | text _ ih => simpa using Becomes.text ih
  | live hx _ ih => simpa using Becomes.live hx ih
  | turn _ ih => exact .turn ih

/-- Turns leave no text. -/
theorem of_turns {xs : List (OpenTag × Document)} {ps : List Piece} {t : Text}
    (h : Becomes R (xs.map .turn ++ ps) t) : Becomes R ps t := by
  induction xs with
  | nil => exact h
  | cons x xs ih =>
      cases h with
      | turn h => exact ih h

/-- When every element gives way to the source of a document, the whole becomes one. -/
theorem exists_document {sel : Selector} {P : OpenTag → Prop} {d : Document} (hd : d.Plain)
    (hP : ∀ x ∈ d.elements, x.1.selectedBy sel = false → P x.1)
    (hR : ∀ x v, R x v → ∃ q : Document, q.WellFormed ∧ (∀ y ∈ q.elements, P y.1) ∧ q.source = v)
    {t : Text} (h : Becomes R (d.pieces sel) t) :
    ∃ q : Document, q.WellFormed ∧ (∀ y ∈ q.elements, P y.1) ∧ q.source = t := by
  induction d generalizing t with
  | text s =>
      cases h with
      | text h =>
          cases h
          exact ⟨.text s, hd.wellFormed, by simp, by simp [Document.source]⟩
  | element before tag content rest ihc ihr =>
      have hb := hd.wellFormed.before
      have hn : tag.name ∉ RawText.names := hd.rawless (tag, content) (by simp)
      have hrest := fun {t : Text} => ihr (t := t)
        ⟨hd.wellFormed.rest, fun x hx => hd.rawless x (by simp [hx])⟩
        fun x hx => hP x (by simp [hx])
      rw [Document.pieces] at h
      split at h
      · cases h with
        | text h =>
            cases h with
            | live hv h =>
                obtain ⟨q, hq, hqP, rfl⟩ := hR _ _ hv
                obtain ⟨r, hr, hrP, rfl⟩ := hrest h
                refine ⟨.text before ++ q ++ r, (hq.prepend hb).append hr, fun y hy => ?_, by simp⟩
                simp only [Document.text_append, Document.elements_append,
                  Document.elements_prepend, List.mem_append] at hy
                rcases hy with hy | hy
                exacts [hqP y hy, hrP y hy]
      · rename_i hsel
        rw [Bool.not_eq_true] at hsel
        cases h with
        | text h =>
            obtain ⟨a, b, rfl, ha, hb'⟩ := h.append_inv
            cases hb' with
            | text hb' =>
                obtain ⟨q, hq, hqP, rfl⟩ := ihc
                  ⟨hd.wellFormed.content_of_ne hn, fun x hx => hd.rawless x (by simp [hx])⟩
                  (fun x hx => hP x (by simp [hx])) ha
                obtain ⟨r, hr, hrP, rfl⟩ := hrest hb'
                refine ⟨.element before tag q r, .element hb hd.wellFormed.tag hn hq hr,
                  fun y hy => ?_, by simp [Document.source]⟩
                simp only [Document.elements_element, List.mem_cons, List.mem_append] at hy
                rcases hy with rfl | hy | hy
                exacts [hP (tag, content) (by simp) hsel, hqP y hy, hrP y hy]

end Becomes

/-! ## Turns -/

section

variable {m : Type → Type} [Monad m] (f : OpenTag × Document → m Text)

/-- The turn of an element: the first copy of its text is replaced, if there is one. -/
def patchElement (body : Text) (x : OpenTag × Document) : m Text :=
  if contains body (elementSource x) then do
    let v ← f x
    pure (replaceFirst (elementSource x) v body)
  else pure body

variable {f}

theorem patchElement_of_cut? {body a b : Text} {x : OpenTag × Document}
    (h : cut? (elementSource x) body = some (a, b)) :
    patchElement f body x = f x >>= fun v => pure (a ++ v ++ b) := by
  rw [patchElement, if_pos (contains_of_cut? h)]
  simp only [replaceFirst_of_cut? _ h]

theorem patchOne_matchAt {fn : Match → m Text} {x : OpenTag × Document} {p : Position}
    (hfn : fn (x.1.matchAt p x.2) = f x) (body : Text) :
    patchOne fn .outer body (x.1.matchAt p x.2) = patchElement f body x := by
  have hpart : (x.1.matchAt p x.2).part .outer = elementSource x := rfl
  have hne : (elementSource x).isEmpty = false := by simp [elementSource, OpenTag.source]
  rw [patchOne, patchElement, hpart, hfn]
  simp only [hne, Bool.false_or]
  cases contains body (elementSource x) <;> rfl

/-- Replacing the matches of a document is taking the turns of its elements. -/
theorem Document.patch_selected_eq [LawfulMonad m] {fn : Match → m Text} {sel : Selector}
    {d : Document} (hfn : ∀ x ∈ d.chosen sel, ∀ p, fn (x.1.matchAt p x.2) = f x) (p : Position)
    (body : Text) :
    patch fn .outer body (d.selected sel p) = (d.chosen sel).foldlM (patchElement f) body := by
  induction d generalizing p body with
  | text s => rfl
  | element before tag content rest ihc ihr =>
      rw [chosen_element] at hfn ⊢
      have hc := fun p => ihc (fun x hx => hfn x (by simp [hx])) p
      have hr := fun p => ihr (fun x hx => hfn x (by simp [hx])) p
      have hinside : ∀ p q (body : Text),
          patch fn .outer body (content.selected sel p ++ rest.selected sel q)
            = (content.chosen sel ++ rest.chosen sel).foldlM (patchElement f) body := by
        intro p q body
        have hstep := hc p body
        rw [patch] at hstep
        rw [patch, List.foldlM_append, List.foldlM_append, hstep]
        exact bind_congr fun b => hr q b
      rw [selected_element]
      split
      · rename_i hsel
        rw [List.singleton_append, List.singleton_append, patch_cons, List.foldlM_cons,
          patchOne_matchAt (hfn (tag, content) (by simp [hsel]) _)]
        exact bind_congr fun b => hinside _ _ b
      · exact hinside _ _ body

end

/-! ## Where a copy stands -/

theorem Quiet.exists_append {sel : Selector} {s r a b : Text} (hs : Quiet sel s)
    {x : OpenTag × Document} (ht : x.1.WellFormed) (hsel : x.1.selectedBy sel = true)
    (e : s ++ r = a ++ (elementSource x ++ b)) :
    ∃ a', a = s ++ a' ∧ r = a' ++ (elementSource x ++ b) := by
  rcases List.append_eq_append_iff.1 e with ⟨c, hc, hr⟩ | ⟨c, hc, hr⟩
  · exact ⟨c, hc, hr⟩
  · cases c with
    | nil => exact ⟨[], by simpa using hc.symm, by simpa using hr.symm⟩
    | cons d c =>
        have hnot : ¬ IsQuietInside sel x.1.inside := by
          rw [isQuietInside_inside ht, hsel]
          decide
        have hnone := hs.after?_eq_none (r := r) (y := x.2.source ++ endTagText x.1.name)
          ht.gt_not_mem hnot hc (List.cons_ne_nil d c)
        rw [elementSource_append] at hr
        exact absurd hr.symm (by simpa using (after?_eq_none_iff _ _).1 hnone b)

/-- Whether a piece may come up in the course of the replacements in a document: a quiet text, an
element that comes to stand in no other one, or the turn of any element. -/
def Piece.Fits (d : Document) (sel : Selector) (opens : OpenTag × Document → Bool) : Piece → Prop
  | text s => Quiet sel s
  | live x => x ∈ d.exposed sel opens
  | turn x => x ∈ d.chosen sel

namespace Document.Plain

variable {d : Document} (hd : d.Plain) {sel : Selector} {opens : OpenTag × Document → Bool}

include hd

theorem content {x : OpenTag × Document} (hx : x ∈ d.elements) : x.2.Plain :=
  ⟨hd.wellFormed.content_of_mem hd.rawless x hx,
    fun _ hy => hd.rawless _ (mem_elements_of_mem_content hx hy)⟩

/-- The pieces of a part of a document fit, if what is exposed in the part is exposed. -/
theorem fits_pieces {c : Document} (hc : c.elements ⊆ d.elements)
    (hexposed : c.exposed sel opens ⊆ d.exposed sel opens) (hw : c.WellFormed) :
    ∀ p ∈ c.pieces sel, p.Fits d sel opens := by
  induction c with
  | text s =>
      intro p hp
      obtain rfl := List.mem_singleton.1 hp
      cases hw with
      | text hs => exact everyTag_of_isRunning hs
  | element before tag content rest ihc ihr =>
      have hmem : (tag, content) ∈ d.elements := hc (by simp)
      have hb : Quiet sel before := everyTag_of_isRunning hw.before
      intro p hp
      rw [pieces] at hp
      rw [exposed] at hexposed
      split at hp
      · rename_i hsel
        rw [if_pos hsel] at hexposed
        rcases List.mem_cons.1 hp with rfl | hp
        · exact hb
        · rcases List.mem_cons.1 hp with rfl | hp
          · exact hexposed (by simp)
          · exact ihr (fun x hx => hc (by simp [hx])) (fun x hx => hexposed (by simp [hx])) hw.rest
              p hp
      · rename_i hsel
        rw [if_neg hsel] at hexposed
        rw [Bool.not_eq_true] at hsel
        rcases List.mem_cons.1 hp with rfl | hp
        · exact hb.append (hw.tag.quiet_source hsel)
        · rcases List.mem_append.1 hp with hp | hp
          · exact ihc (fun x hx => hc (by simp [hx])) (fun x hx => hexposed (by simp [hx]))
              (hw.content_of_ne (hd.rawless _ hmem)) p hp
          · rcases List.mem_cons.1 hp with rfl | hp
            · exact hw.tag.quiet_endTagText hsel
            · exact ihr (fun x hx => hc (by simp [hx])) (fun x hx => hexposed (by simp [hx])) hw.rest
                p hp

/-- A copy of an element that stands in a text in pieces is one of them, or is inside one. -/
theorem exists_live {ps : List Piece} (hps : ∀ p ∈ ps, p.Fits d sel opens)
    {x : OpenTag × Document} (hx : x ∈ d.chosen sel) {a b : Text}
    (e : ps.flatMap Piece.source = a ++ (elementSource x ++ b)) :
    ∃ qs y rs a', ps = qs ++ .live y :: rs ∧ (y = x ∨ x ∈ y.2.chosen sel) ∧
      a = qs.flatMap Piece.source ++ a' := by
  obtain ⟨hmem, hsel⟩ := List.mem_filter.1 hx
  have ht := hd.wellFormed.tag_of_mem x hmem
  induction ps generalizing a with
  | nil =>
      rw [elementSource_append] at e
      simp at e
  | cons p ps ih =>
      have hrest : ∀ {a' : Text}, a = p.source ++ a' →
          ps.flatMap Piece.source = a' ++ (elementSource x ++ b) →
          ∃ qs y rs a', p :: ps = qs ++ .live y :: rs ∧ (y = x ∨ x ∈ y.2.chosen sel) ∧
            a = qs.flatMap Piece.source ++ a' := by
        intro a' ha e'
        obtain ⟨qs, y, rs, c, rfl, hy, rfl⟩ := ih (fun q hq => hps q (List.mem_cons_of_mem p hq)) e'
        exact ⟨p :: qs, y, rs, c, rfl, hy, by rw [ha, List.flatMap_cons, List.append_assoc]⟩
      rw [List.flatMap_cons] at e
      have hp := hps p (by simp)
      cases p with
      | text s =>
          obtain ⟨a', ha, e'⟩ := Quiet.exists_append hp ht hsel e
          exact hrest ha e'
      | turn y => exact @hrest a rfl e
      | live y =>
          -- an element: the copy is it, is inside it, or stands behind it
          have hymem := (List.mem_filter.1 (exposed_subset sel opens d hp)).1
          have hwf : (Document.element [] y.1 y.2 (.text [])).WellFormed :=
            .element (by simp [IsRunning]) (hd.wellFormed.tag_of_mem y hymem) (hd.rawless y hymem)
              (hd.content hymem).wellFormed (.text (by simp [IsRunning]))
          have hlacks : (Document.element [] y.1 y.2 (.text [])).Rawless := by
            intro z hz
            simp only [elements_element, elements_text, List.append_nil, List.mem_cons] at hz
            rcases hz with rfl | hz
            exacts [hd.rawless y hymem, (hd.content hymem).rawless z hz]
          have hsource : (Document.element [] y.1 y.2 (.text [])).source = elementSource y := by
            simp [source, elementSource]
          have e' : (Document.element [] y.1 y.2 (.text [])).source ++ ps.flatMap Piece.source
              = a ++ (elementSource x ++ b) := by rw [hsource]; exact e
          rcases hwf.occurs hlacks ht (hd.content hmem).wellFormed e' with ⟨a', ha, e'⟩ | ⟨b', -, hat⟩
          · exact hrest (by rw [ha, hsource]; rfl) e'
          · have hxy := hat.1
            simp only [elements_element, elements_text, List.append_nil, List.mem_cons] at hxy
            rcases hxy with rfl | hxy
            exacts [⟨[], _, ps, a, rfl, Or.inl rfl, rfl⟩,
              ⟨[], y, ps, a, rfl, Or.inr (List.mem_filter.2 ⟨hxy, hsel⟩), rfl⟩]

end Document.Plain

/-! ## All turns -/

/-- What an element leaves when it gives way: its content if it is opened, and otherwise only
the turns of the elements inside it. -/
def leavings (sel : Selector) (opens : OpenTag × Document → Bool) (x : OpenTag × Document) :
    List Piece :=
  if opens x then x.2.pieces sel else (x.2.chosen sel).map .turn

theorem flatMap_turns_leavings (sel : Selector) (opens : OpenTag × Document → Bool)
    (x : OpenTag × Document) : (leavings sel opens x).flatMap (Piece.turns sel) = x.2.chosen sel := by
  rw [leavings]
  split
  exacts [Document.flatMap_turns_pieces sel x.2, Piece.flatMap_turns_map_turn sel _]

/-- Whether no copy of an element stands among pieces, or inside one of them. -/
def Absent (sel : Selector) (x : OpenTag × Document) (ps : List Piece) : Prop :=
  ∀ y, .live y ∈ ps → y ≠ x ∧ x ∉ y.2.chosen sel

/-- Whether the turns clear a text in pieces: when the turn of an element that is gone comes, no
copy is left, or the first one stands by itself. -/
inductive Clears (sel : Selector) (opens : OpenTag × Document → Bool) : List Piece → Prop where
  | nil : Clears sel opens []
  | text {s : Text} {ps : List Piece} : Clears sel opens ps → Clears sel opens (.text s :: ps)
  | live {x : OpenTag × Document} {ps : List Piece} :
      Clears sel opens (leavings sel opens x ++ ps) → Clears sel opens (.live x :: ps)
  | idle {x : OpenTag × Document} {ps : List Piece} : Absent sel x ps →
      Clears sel opens ps → Clears sel opens (.turn x :: ps)
  | early {x : OpenTag × Document} {qs rs : List Piece} : Absent sel x qs →
      (∀ v, Clears sel opens (qs ++ .text v :: .turn x :: (leavings sel opens x ++ rs))) →
      Clears sel opens (.turn x :: (qs ++ .live x :: rs))

/-- Whether replacing the elements that a selector takes clears a document. -/
def Document.Clears (sel : Selector) (opens : OpenTag × Document → Bool) (d : Document) : Prop :=
  Html.Clears sel opens (d.pieces sel)

section

variable {m : Type → Type} [Monad m] [LawfulMonad m] {f : OpenTag × Document → m Text}
  {R : OpenTag × Document → Text → Prop} {d : Document} {sel : Selector}
  {opens : OpenTag × Document → Bool}

/-- The replacements that are asked for: an element that is opened gives way to its content, and
any other one to a quiet text. -/
structure Answers (d : Document) (sel : Selector) (opens : OpenTag × Document → Bool)
    (f : OpenTag × Document → m Text) (R : OpenTag × Document → Text → Prop) : Prop where
  closed : ∀ x ∈ d.exposed sel opens, opens x = false → Gives (fun v => Quiet sel v ∧ R x v) (f x)
  opened : ∀ x ∈ d.exposed sel opens, opens x = true → f x = pure x.2.source
  becomes : ∀ x ∈ d.exposed sel opens, opens x = true → ∀ v, Becomes R (x.2.pieces sel) v → R x v

/-- An element gives way to a quiet text and what it leaves. -/
theorem Answers.gives_leavings (hf : Answers d sel opens f R) {x : OpenTag × Document}
    (hx : x ∈ d.exposed sel opens) :
    Gives (fun v => ∃ s, Quiet sel s ∧ v = s ++ (leavings sel opens x).flatMap Piece.source ∧
      ∀ a, Becomes R (leavings sel opens x) a → R x (s ++ a)) (f x) := by
  cases ho : opens x with
  | false =>
      refine (hf.closed x hx ho).mono fun v hv => ⟨v, hv.1, ?_, fun a ha => ?_⟩
      · rw [leavings, ho, if_neg (by decide), Piece.flatMap_source_map_turn, List.append_nil]
      · rw [leavings, ho, if_neg (by decide), ← List.append_nil (List.map _ _)] at ha
        cases ha.of_turns
        rw [List.append_nil]
        exact hv.2
  | true =>
      rw [hf.opened x hx ho]
      refine gives_pure ⟨[], everyTag_of_not_mem (by simp), ?_, fun a ha => ?_⟩
      · rw [leavings, ho, if_pos rfl, Document.flatMap_source_pieces, List.nil_append]
      · rw [leavings, ho, if_pos rfl] at ha
        exact hf.becomes x hx ho a ha

/-- What an element leaves fits. -/
theorem Document.Plain.fits_leavings (hd : d.Plain) {x : OpenTag × Document}
    (hx : x ∈ d.exposed sel opens) : ∀ p ∈ leavings sel opens x, p.Fits d sel opens := by
  have hchosen := Document.exposed_subset sel opens d hx
  have hmem := (List.mem_filter.1 hchosen).1
  cases ho : opens x with
  | false =>
      intro p hp
      rw [leavings, ho, if_neg (by decide)] at hp
      obtain ⟨z, hz, rfl⟩ := List.mem_map.1 hp
      exact Document.chosen_subset_of_mem hchosen hz
  | true =>
      rw [leavings, ho, if_pos rfl]
      exact hd.fits_pieces (fun y hy => Document.mem_elements_of_mem_content hmem hy)
        (Document.exposed_subset_of_opened hx ho) (hd.content hmem).wellFormed

variable {ps qs rs : List Piece} {pre : Text} {x : OpenTag × Document}

/-- A copy of an element stands in a text in pieces only where it is, or one that holds it. -/
theorem Document.Plain.cut?_eq_none (hd : d.Plain) (hfits : ∀ p ∈ ps, p.Fits d sel opens)
    (hpre : Quiet sel pre) (hx : x ∈ d.chosen sel) (habsent : Absent sel x ps) :
    cut? (elementSource x) (pre ++ ps.flatMap Piece.source) = none := by
  have hall : ∀ p ∈ Piece.text pre :: ps, p.Fits d sel opens :=
    List.forall_mem_cons.2 ⟨hpre, hfits⟩
  refine (cut?_eq_none_iff _ _).2 fun a b e => ?_
  obtain ⟨us, y, vs, -, hsplit, hy, -⟩ := hd.exists_live hall hx
    (by simpa [List.flatMap_cons, Piece.source] using e)
  have hlive : .live y ∈ ps := by
    have : Piece.live y ∈ Piece.text pre :: ps := by simp [hsplit]
    simpa using this
  rcases hy with hy | hy
  exacts [(habsent y hlive).1 hy, (habsent y hlive).2 hy]

/-- The first copy of an element is the one that stands by itself, when there is none before. -/
theorem Document.Plain.cut?_live (hd : d.Plain)
    (hfits : ∀ p ∈ qs ++ .live x :: rs, p.Fits d sel opens) (hpre : Quiet sel pre)
    (hx : x ∈ d.chosen sel) (habsent : Absent sel x qs) :
    cut? (elementSource x) (pre ++ (qs ++ .live x :: rs).flatMap Piece.source)
      = some (pre ++ qs.flatMap Piece.source, rs.flatMap Piece.source) := by
  have hsource : pre ++ (qs ++ .live x :: rs).flatMap Piece.source
      = pre ++ qs.flatMap Piece.source ++ elementSource x ++ rs.flatMap Piece.source := by
    simp [List.flatMap_append, List.flatMap_cons, Piece.source]
  have hall : ∀ p ∈ Piece.text pre :: (qs ++ .live x :: rs), p.Fits d sel opens :=
    List.forall_mem_cons.2 ⟨hpre, hfits⟩
  rw [hsource]
  refine cut?_append fun a b hab hb => (after?_eq_none_iff _ _).2 fun r hr => hb ?_
  have e : (Piece.text pre :: (qs ++ .live x :: rs)).flatMap Piece.source
      = a ++ (elementSource x ++ r) := by
    rw [← hr, List.flatMap_cons]
    simp only [Piece.source]
    rw [hsource, hab]
    simp
  -- an earlier copy would be one of the pieces before, or inside one
  obtain ⟨us, y, vs, a', hsplit, hy, ha⟩ := hd.exists_live hall hx e
  rw [← List.cons_append] at hsplit
  rcases List.append_eq_append_iff.1 hsplit with ⟨c, rfl, -⟩ | ⟨c, hus, hc⟩
  · -- the copy stands behind them
    have hlen := congrArg List.length hab
    rw [ha] at hlen
    simp only [List.flatMap_append, List.flatMap_cons, Piece.source, List.length_append] at hlen
    exact List.length_eq_zero_iff.1 (by omega)
  · cases c with
    | nil =>
        have hlen := congrArg List.length hab
        rw [List.append_nil] at hus
        rw [ha, ← hus] at hlen
        simp only [List.flatMap_cons, Piece.source, List.length_append] at hlen
        exact List.length_eq_zero_iff.1 (by omega)
    | cons p c =>
        obtain ⟨rfl, -⟩ := List.cons.inj hc
        have hlive : .live y ∈ qs := by
          have : Piece.live y ∈ Piece.text pre :: qs := by simp [hus]
          simpa using this
        rcases hy with hy | hy
        exacts [absurd hy (habsent y hlive).1, absurd hy (habsent y hlive).2]

/-- The turn of an element puts a quiet text and what it leaves in the place of its first copy. -/
theorem Answers.gives_patchElement (hf : Answers d sel opens f R) (hd : d.Plain)
    (hfits : ∀ p ∈ qs ++ .live x :: rs, p.Fits d sel opens) (hpre : Quiet sel pre)
    (hx : x ∈ d.exposed sel opens) (habsent : Absent sel x qs) :
    Gives (fun t => ∃ s, Quiet sel s ∧ (∀ a, Becomes R (leavings sel opens x) a → R x (s ++ a)) ∧
        t = pre ++ (qs ++ .text s :: (leavings sel opens x ++ rs)).flatMap Piece.source)
      (patchElement f (pre ++ (qs ++ .live x :: rs).flatMap Piece.source) x) := by
  have hchosen := Document.exposed_subset sel opens d hx
  rw [patchElement_of_cut? (hd.cut?_live hfits hpre hchosen habsent)]
  refine (hf.gives_leavings hx).bind ?_
  rintro v ⟨s, hs, rfl, hR⟩
  refine gives_pure ⟨s, hs, hR, ?_⟩
  simp [List.flatMap_append, List.flatMap_cons, Piece.source]

/-- When the turns clear a text in pieces, every element gives way to a text that it is related
to, and the whole is quiet. -/
theorem Clears.gives_patch (hd : d.Plain) (hf : Answers d sel opens f R) (h : Clears sel opens ps)
    (hfits : ∀ p ∈ ps, p.Fits d sel opens) (hpre : Quiet sel pre) :
    Gives (fun t => Quiet sel t ∧ ∃ r, t = pre ++ r ∧ Becomes R ps r)
      ((ps.flatMap (Piece.turns sel)).foldlM (patchElement f) (pre ++ ps.flatMap Piece.source)) := by
  induction h generalizing pre with
  | nil => exact gives_pure ⟨by simpa using hpre, [], rfl, .nil⟩
  | @text s ps _ ih =>
      obtain ⟨hs, hps⟩ := List.forall_mem_cons.1 hfits
      simp only [List.flatMap_cons, Piece.turns, Piece.source, List.nil_append]
      rw [← List.append_assoc]
      refine (ih hps (hpre.append hs)).mono ?_
      rintro t ⟨hq, r, rfl, hr⟩
      exact ⟨hq, s ++ r, by simp, .text hr⟩
  | @live x ps _ ih =>
      obtain ⟨hx, hps⟩ := List.forall_mem_cons.1 hfits
      have hturns : (Piece.live x :: ps).flatMap (Piece.turns sel)
          = x :: (leavings sel opens x ++ ps).flatMap (Piece.turns sel) := by
        rw [List.flatMap_append, flatMap_turns_leavings]
        rfl
      have hall : ∀ p ∈ [] ++ Piece.live x :: ps, p.Fits d sel opens := hfits
      rw [hturns, List.foldlM_cons]
      refine (hf.gives_patchElement hd hall hpre hx (by simp [Absent])).bind ?_
      rintro t ⟨s, hs, hR, rfl⟩
      have key := ih (List.forall_mem_append.2 ⟨hd.fits_leavings hx, hps⟩) (hpre.append hs)
      have hsource :
          pre ++ ([] ++ Piece.text s :: (leavings sel opens x ++ ps)).flatMap Piece.source
            = pre ++ s ++ (leavings sel opens x ++ ps).flatMap Piece.source := by
        simp [List.flatMap_cons, Piece.source]
      rw [hsource]
      refine key.mono ?_
      rintro t ⟨hq, r, rfl, hr⟩
      obtain ⟨a, b, rfl, ha, hb⟩ := hr.append_inv
      exact ⟨hq, s ++ a ++ b, by simp, .live (hR a ha) hb⟩
  | @idle x ps habsent _ ih =>
      obtain ⟨hx, hps⟩ := List.forall_mem_cons.1 hfits
      have hcut := hd.cut?_eq_none hps hpre hx habsent
      simp only [List.flatMap_cons, Piece.turns, Piece.source, List.nil_append,
        List.singleton_append, List.foldlM_cons]
      rw [patchElement, if_neg (by simp [contains, hcut]), pure_bind]
      refine (ih hps hpre).mono ?_
      rintro t ⟨hq, r, rfl, hr⟩
      exact ⟨hq, r, rfl, .turn hr⟩
  | @early x qs rs habsent _ ih =>
      obtain ⟨hx, hps⟩ := List.forall_mem_cons.1 hfits
      obtain ⟨hqs, hrs⟩ := List.forall_mem_append.1 hps
      obtain ⟨hlive, hrs⟩ := List.forall_mem_cons.1 hrs
      have hturn : (Piece.turn x :: (qs ++ .live x :: rs)).flatMap (Piece.turns sel)
          = x :: (qs ++ .live x :: rs).flatMap (Piece.turns sel) := rfl
      rw [hturn, List.foldlM_cons]
      refine (hf.gives_patchElement hd hps hpre hlive habsent).bind ?_
      rintro t ⟨s, hs, hR, rfl⟩
      have key := ih s (List.forall_mem_append.2 ⟨hqs, List.forall_mem_cons.2 ⟨hs,
        List.forall_mem_cons.2 ⟨hx, List.forall_mem_append.2 ⟨hd.fits_leavings hlive, hrs⟩⟩⟩⟩) hpre
      have hturns : (qs ++ .text s :: .turn x :: (leavings sel opens x ++ rs)).flatMap
          (Piece.turns sel) = (qs ++ .live x :: rs).flatMap (Piece.turns sel) := by
        simp [List.flatMap_append, List.flatMap_cons, Piece.turns, flatMap_turns_leavings]
      have hsource : pre ++ (qs ++ .text s :: .turn x :: (leavings sel opens x ++ rs)).flatMap
          Piece.source
          = pre ++ (qs ++ .text s :: (leavings sel opens x ++ rs)).flatMap Piece.source := by
        simp [List.flatMap_append, List.flatMap_cons, Piece.source]
      rw [hturns, hsource] at key
      refine key.mono ?_
      rintro t ⟨hq, r, rfl, hr⟩
      refine ⟨hq, r, rfl, .turn ?_⟩
      obtain ⟨a, b, rfl, ha, hb⟩ := hr.append_inv
      cases hb with
      | text hb =>
          cases hb with
          | turn hb =>
              obtain ⟨u, w, rfl, hu, hw⟩ := hb.append_inv
              rw [← List.append_assoc s]
              exact ha.append (.live (hR u hu) hw)

/-- Replacing the elements that a selector takes in the source of a document that the turns
clear. -/
theorem Document.Plain.exists_replaceMatches (hd : d.Plain) (hclears : d.Clears sel opens)
    (fn : Match → m Text) (hfn : ∀ x ∈ d.chosen sel, ∀ p, fn (x.1.matchAt p x.2) = f x)
    (hf : Answers d sel opens f R) :
    ∃ x : m Text, replaceMatches fn .outer sel none d.source = ExceptT.lift x ∧
      Gives (fun t => Quiet sel t ∧ Becomes R (d.pieces sel) t) x := by
  have hfits : ∀ p ∈ d.pieces sel, p.Fits d sel opens :=
    hd.fits_pieces (List.Subset.refl _) (List.Subset.refl _) hd.wellFormed
  have hpatch := hclears.gives_patch hd hf hfits (everyTag_of_not_mem (s := []) (by simp))
  rw [List.nil_append, Document.flatMap_turns_pieces, Document.flatMap_source_pieces,
    ← Document.patch_selected_eq hfn .origin] at hpatch
  refine ⟨_, replaceMatches_of_gives (hd.wellFormed.matchesIn_all sel) ?_, hpatch.mono ?_⟩
  · exact hpatch.mono fun t ht _ name hname => ht.1.leftovers_eq_nil hname
  · rintro t ⟨hq, r, rfl, hr⟩
    exact ⟨hq, hr⟩

end
end Stencil.Html
