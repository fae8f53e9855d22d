import Mathlib.Algebra.GroupWithZero.Nat
import Stencil.Proofs.Document.Nested

set_option autoImplicit false

/-! # Documents that their turns clear

A turn takes a copy inside another element only when what stood inside one element stands
inside a later one too. Where this is not so (`Document.KeepsApart`), the turns clear the
document; it is so in particular when no element that is taken stands inside another one.
-/

namespace Stencil.Html

open Text

/-! ## Keeping apart -/

namespace Document

/-- Whether nothing that goes with one element stands inside a later one too. -/
def KeepsApart (sel : Selector) (opens : OpenTag × Document → Bool) (d : Document) : Prop :=
  (d.exposed sel opens).Pairwise fun x y =>
    opens x = false → ∀ z ∈ x.2.chosen sel, z ∉ y.2.chosen sel

instance (sel : Selector) (opens : OpenTag × Document → Bool) :
    DecidablePred (KeepsApart sel opens) := fun _ =>
  inferInstanceAs (Decidable (List.Pairwise _ _))

theorem chosen_eq_nil_of_untouched {sel : Selector} {d : Document} (h : d.Untouched sel) :
    d.chosen sel = [] :=
  List.filter_eq_nil_iff.2 fun x hx => by simp [h x hx]

/-- Elements with nothing inside take nothing with them. -/
theorem keepsApart_of_isFlat {sel : Selector} {d : Document} (h : d.IsFlat sel)
    (opens : OpenTag × Document → Bool) : d.KeepsApart sel opens := by
  have hnil : ∀ x ∈ d.exposed sel opens, x.2.chosen sel = [] := by
    intro x hx
    obtain ⟨hmem, hsel⟩ := List.mem_filter.1 (exposed_subset sel opens d hx)
    exact chosen_eq_nil_of_untouched (h x hmem hsel)
  refine List.pairwise_of_forall_mem_list fun x hx y _ _ z hz => ?_
  rw [hnil x hx] at hz
  simp at hz

/-! ## How many turns there are -/

/-- How many pieces a document may fall into. -/
def weight : Document → Nat
  | text _ => 1
  | element _ _ content rest => 4 + content.weight + rest.weight

theorem length_chosen_le (sel : Selector) (d : Document) : (d.chosen sel).length ≤ d.weight := by
  induction d with
  | text s => simp [weight]
  | element before tag content rest ihc ihr =>
      rw [chosen_element, List.length_append, List.length_append, weight]
      split
      · rw [List.length_singleton]
        omega
      · rw [List.length_nil]
        omega

end Document

/-- How many steps a piece may take. -/
def Piece.weight : Piece → Nat
  | text _ => 1
  | live x => 2 + x.2.weight
  | turn _ => 1

theorem Document.sum_weight_pieces_le (sel : Selector) (d : Document) :
    ((d.pieces sel).map Piece.weight).sum ≤ d.weight := by
  induction d with
  | text s => simp [pieces, Piece.weight, weight]
  | element before tag content rest ihc ihr =>
      rw [pieces, weight]
      split
      · simp only [List.map_cons, List.sum_cons, Piece.weight]
        omega
      · simp only [List.map_cons, List.map_append, List.sum_cons, List.sum_append, Piece.weight]
        omega

theorem sum_weight_leavings_le (sel : Selector) (opens : OpenTag × Document → Bool)
    (x : OpenTag × Document) : ((leavings sel opens x).map Piece.weight).sum ≤ x.2.weight := by
  have hturns : ∀ xs : List (OpenTag × Document),
      ((xs.map Piece.turn).map Piece.weight).sum = xs.length := by
    intro xs
    induction xs with
    | nil => rfl
    | cons y ys ih =>
        rw [List.map_cons, List.map_cons, List.sum_cons, ih, Piece.weight, List.length_cons]
        omega
  rw [leavings]
  split
  · exact Document.sum_weight_pieces_le sel x.2
  · rw [hturns]
    exact Document.length_chosen_le sel x.2

theorem flatMap_exposed_leavings (sel : Selector) (opens : OpenTag × Document → Bool)
    (x : OpenTag × Document) : (leavings sel opens x).flatMap (Piece.exposed sel opens)
      = if opens x then x.2.exposed sel opens else [] := by
  rw [leavings]
  split
  exacts [Document.flatMap_exposed_pieces sel opens x.2, Piece.flatMap_exposed_map_turn sel opens _]

/-- The turns that an element leaves are those of elements inside it. -/
theorem mem_leavings_turn {sel : Selector} {opens : OpenTag × Document → Bool}
    {x y : OpenTag × Document} (h : .turn y ∈ leavings sel opens x) :
    opens x = false ∧ y ∈ x.2.chosen sel := by
  have hpieces : ∀ d : Document, .turn y ∉ d.pieces sel := by
    intro d
    induction d with
    | text s => simp [Document.pieces]
    | element before tag content rest ihc ihr =>
        rw [Document.pieces]
        split <;> simp [ihc, ihr]
  rw [leavings] at h
  split at h
  · exact absurd h (hpieces x.2)
  · rename_i ho
    obtain ⟨z, hz, e⟩ := List.mem_map.1 h
    cases e
    exact ⟨by simpa using ho, hz⟩

/-! ## Turns that are left over -/

/-- How things stand in the course of the replacements. -/
structure Pending (sel : Selector) (opens : OpenTag × Document → Bool)
    (gone : List (OpenTag × Document)) (ps : List Piece) : Prop where
  /-- What is still to go with one element stands inside no later one. -/
  apart : (ps.flatMap (Piece.exposed sel opens)).Pairwise fun x y =>
    opens x = false → ∀ z ∈ x.2.chosen sel, z ∉ y.2.chosen sel
  /-- What is gone stands inside none of the elements. -/
  fresh : ∀ y ∈ ps.flatMap (Piece.exposed sel opens), ∀ z ∈ gone, z ∉ y.2.chosen sel
  /-- The turns left over are those of elements that are gone. -/
  turns : ∀ x, .turn x ∈ ps → x ∈ gone
  /-- With an element, those inside it are gone. -/
  closed : ∀ x ∈ gone, x.2.chosen sel ⊆ gone

namespace Pending

variable {sel : Selector} {opens : OpenTag × Document → Bool} {gone : List (OpenTag × Document)}
  {ps qs rs : List Piece} {x : OpenTag × Document}

/-- A document as a whole, before the first turn. -/
theorem start {d : Document} (h : d.KeepsApart sel opens) :
    Pending sel opens [] (d.pieces sel) where
  apart := by
    rw [Document.flatMap_exposed_pieces]
    exact h
  fresh := by simp
  turns := by
    intro x hx
    have hleft : .turn x ∈ leavings sel (fun _ => true) (OpenTag.mk [] [] [], d) := by
      rw [leavings, if_pos rfl]
      exact hx
    exact absurd (mem_leavings_turn hleft).1 (by decide)
  closed := by simp

theorem tail {p : Piece} (h : Pending sel opens gone (p :: ps)) : Pending sel opens gone ps where
  apart := by
    have := h.apart
    rw [List.flatMap_cons] at this
    exact (List.pairwise_append.1 this).2.1
  fresh := fun y hy => h.fresh y (by simp [List.flatMap_cons, hy])
  turns := fun y hy => h.turns y (List.mem_cons_of_mem p hy)
  closed := h.closed

/-- The element in front gives way: those inside it are gone, unless it is opened. -/
theorem replace (h : Pending sel opens gone (.live x :: ps)) :
    Pending sel opens (gone ++ if opens x then [] else x.2.chosen sel)
      (leavings sel opens x ++ ps) := by
  have hexposed : (leavings sel opens x ++ ps).flatMap (Piece.exposed sel opens)
      = (if opens x then x.2.exposed sel opens else []) ++ ps.flatMap (Piece.exposed sel opens) := by
    rw [List.flatMap_append, flatMap_exposed_leavings]
  have happart := h.apart
  have hfresh := h.fresh
  rw [List.flatMap_cons, Piece.exposed, List.cons_append, ← hexposed] at happart hfresh
  obtain ⟨hx, happart⟩ := List.pairwise_cons.1 happart
  refine ⟨happart, fun y hy z hz => ?_, fun y hy => ?_, fun y hy z hz => ?_⟩
  · rcases List.mem_append.1 hz with hz | hz
    · exact hfresh y (List.mem_cons_of_mem x hy) z hz
    · split at hz
      · simp at hz
      · rename_i ho
        exact hx y hy (by simpa using ho) z hz
  · rcases List.mem_append.1 hy with hy | hy
    · obtain ⟨ho, hy⟩ := mem_leavings_turn hy
      exact List.mem_append_right _ (by simpa [ho] using hy)
    · exact List.mem_append_left _ (h.tail.turns y hy)
  · rcases List.mem_append.1 hy with hy | hy
    · exact List.mem_append_left _ (h.closed y hy hz)
    · split at hy
      · simp at hy
      · rename_i ho
        rw [if_neg ho]
        exact List.mem_append_right _ (Document.chosen_subset_of_mem hy hz)

/-- An element whose turn comes when it is gone has nothing inside, if a copy is left. -/
theorem chosen_eq_nil (h : Pending sel opens gone (.turn x :: (qs ++ .live x :: rs))) :
    x.2.chosen sel = [] := by
  refine List.eq_nil_iff_forall_not_mem.2 fun z hz => ?_
  have hgone : z ∈ gone := h.closed x (h.turns x (by simp)) hz
  exact h.fresh x (by simp [List.flatMap_cons, List.flatMap_append, Piece.exposed]) z hgone hz

/-- No other copy of it stands inside an element. -/
theorem absent (h : Pending sel opens gone (.turn x :: ps)) (hqs : qs ⊆ ps) (hx : .live x ∉ qs) :
    Absent sel x qs := by
  intro y hy
  refine ⟨fun e => hx (e ▸ hy), h.fresh y ?_ x (h.turns x (by simp))⟩
  rw [List.flatMap_cons, Piece.exposed, List.nil_append, List.mem_flatMap]
  exact ⟨_, hqs hy, by simp [Piece.exposed]⟩

/-- The copy is replaced ahead of its own turn. -/
theorem advance (h : Pending sel opens gone (.turn x :: (qs ++ .live x :: rs))) (v : Text) :
    Pending sel opens gone (qs ++ .text v :: .turn x :: (leavings sel opens x ++ rs)) := by
  have hnil := h.chosen_eq_nil
  have hexposed : (leavings sel opens x).flatMap (Piece.exposed sel opens) = [] := by
    rw [flatMap_exposed_leavings]
    split
    · exact List.subset_nil.1 (hnil ▸ Document.exposed_subset sel opens x.2)
    · rfl
  have hsub : List.Sublist ((qs ++ .text v :: .turn x :: (leavings sel opens x ++ rs)).flatMap
        (Piece.exposed sel opens))
      ((Piece.turn x :: (qs ++ .live x :: rs)).flatMap (Piece.exposed sel opens)) := by
    simp only [List.flatMap_cons, List.flatMap_append, Piece.exposed, List.nil_append, hexposed]
    exact (List.Sublist.refl _).append (List.sublist_append_right _ _)
  refine ⟨h.apart.sublist hsub, fun y hy => h.fresh y (hsub.subset hy), fun y hy => ?_, h.closed⟩
  simp only [List.mem_append, List.mem_cons] at hy
  rcases hy with hy | hy | hy | hy | hy
  · exact h.turns y (by simp [hy])
  · cases hy
  · exact h.turns y (by simp [hy])
  · exact absurd (mem_leavings_turn hy).2 (by simp [hnil])
  · exact h.turns y (by simp [hy])

/-- So the turns clear what is left. -/
theorem clears {k : Nat} (hk : (ps.map Piece.weight).sum = k) (h : Pending sel opens gone ps) :
    Clears sel opens ps := by
  induction k using Nat.strongRecOn generalizing gone ps with
  | ind k ih =>
    subst hk
    cases ps with
    | nil => exact .nil
    | cons p ps =>
        cases p with
        | text s => exact .text (ih _ (by simp [Piece.weight]) rfl h.tail)
        | live x =>
            refine .live (ih _ ?_ rfl h.replace)
            have := sum_weight_leavings_le sel opens x
            rw [List.map_append, List.sum_append, List.map_cons, List.sum_cons, Piece.weight]
            omega
        | turn x =>
            by_cases hx : .live x ∈ ps
            · -- a copy is left, and it is replaced early
              obtain ⟨qs, rs, rfl, hqs⟩ := List.eq_append_cons_of_mem hx
              refine .early (h.absent (List.subset_append_left _ _) hqs) fun v =>
                ih _ ?_ rfl (h.advance v)
              have := sum_weight_leavings_le sel opens x
              simp only [List.map_cons, List.map_append, List.sum_cons, List.sum_append,
                Piece.weight]
              omega
            · exact .idle (h.absent (List.Subset.refl _) hx)
                (ih _ (by simp [Piece.weight]) rfl h.tail)

end Pending

/-- The turns clear a document that keeps apart what goes with its elements. -/
theorem Document.KeepsApart.clears {sel : Selector} {opens : OpenTag × Document → Bool}
    {d : Document} (h : d.KeepsApart sel opens) : d.Clears sel opens :=
  (Pending.start h).clears rfl

/-! ## Texts around a document -/

theorem Clears.append_text {sel : Selector} {opens : OpenTag × Document → Bool} {ps : List Piece}
    (h : Clears sel opens ps) (ss : List Text) : Clears sel opens (ps ++ ss.map .text) := by
  have hnone : ∀ y, Piece.live y ∉ ss.map Piece.text := by simp
  induction h with
  | nil =>
      induction ss with
      | nil => exact .nil
      | cons s ss ih => exact .text (ih (by simp))
  | text _ ih => exact .text ih
  | live _ ih =>
      rw [List.append_assoc] at ih
      exact .live ih
  | idle habsent _ ih =>
      refine .idle (fun y hy => ?_) ih
      rcases List.mem_append.1 hy with hy | hy
      exacts [habsent y hy, absurd hy (hnone y)]
  | early habsent _ ih =>
      rw [List.cons_append, List.append_assoc]
      refine .early habsent fun v => ?_
      have key := ih v
      simp only [List.append_assoc, List.cons_append] at key
      exact key

end Stencil.Html
