import Stencil.Proofs.Scope.Compile

set_option autoImplicit false

/-! # What carries a marker

In the expansion of a document every element either was in a fragment or on the page, and carries
the strict markers that were in force where it stood, or was left around a fragment, and carries
the loose markers of that fragment. No marker is drawn twice, so the markers of an import are
carried in the place of that import only.
-/

namespace Stencil

open Text Html Vocabulary

/-! ## The markers that a start tag carries -/

namespace Html

/-- Whether a start tag carries none of the attributes of a marker. -/
def OpenTag.IsFreeOf (M : Text) (t : OpenTag) : Prop :=
  t.table.has (looseAttr M) = false ∧ t.table.has (strictAttr M) = false

section

variable {markers : Markers} (hmarkers : ∀ n, IsMarker (markers (n + 1)))

include hmarkers

/-- A marked tag carries no loose marker. -/
theorem OpenTag.IsMarkable.marked_looseAttr {t : OpenTag} (ht : t.IsMarkable markers)
    {strict : List Text} (hstrict : ∀ M ∈ strict, ∃ n, M = markers (n + 1)) (n : Nat) :
    (t.marked strict).table.has (looseAttr (markers (n + 1))) = false := by
  rw [Bool.eq_false_iff, ne_eq, has_marked (isMarker_of_supplied hmarkers hstrict)]
  rintro (h | ⟨-, h⟩)
  · rw [ht.not_loose n] at h
    exact absurd h (by decide)
  · obtain ⟨M, -, e⟩ := List.mem_map.1 h
    exact looseAttr_ne_strictAttr _ _ e.symm

/-- A marked tag carries the strict markers in force, unless it is a style sheet. -/
theorem OpenTag.IsMarkable.marked_strictAttr {t : OpenTag} (ht : t.IsMarkable markers)
    {strict : List Text} (hstrict : ∀ M ∈ strict, ∃ n, M = markers (n + 1)) (n : Nat) :
    (t.marked strict).table.has (strictAttr (markers (n + 1))) = true
      ↔ t.name ≠ sheetName ∧ markers (n + 1) ∈ strict := by
  rw [has_marked (isMarker_of_supplied hmarkers hstrict), ht.not_strict n,
    List.mem_map_of_injective strictAttr_injective]
  simp

theorem OpenTag.IsMarkable.isFreeOf_marked {t : OpenTag} (ht : t.IsMarkable markers)
    {strict : List Text} (hstrict : ∀ M ∈ strict, ∃ n, M = markers (n + 1)) {M : Text}
    (hM : ∃ n, M = markers (n + 1)) (hnot : M ∉ strict) : (t.marked strict).IsFreeOf M := by
  obtain ⟨n, rfl⟩ := hM
  refine ⟨ht.marked_looseAttr hmarkers hstrict n, ?_⟩
  rw [Bool.eq_false_iff, ne_eq, ht.marked_strictAttr hmarkers hstrict]
  exact fun h => hnot h.2

end

/-- An enclosure has the attributes of its loose markers and no other. -/
theorem has_enclosure {loose : List Text} (h : ∀ M ∈ loose, IsMarker M) (name : Text) :
    (enclosure loose).table.has name = true ↔ name ∈ loose.map looseAttr := by
  have hpairs : (enclosure loose).pairs = loose.map fun M => (looseAttr M, []) := by
    rw [enclosure, OpenTag.pairs, OpenTag.ofTable, List.map_map, List.map_map]
    refine List.map_congr_left fun M hM => ?_
    have hlower := (isAttrName_looseAttr h _ (List.mem_map_of_mem hM)).lower
    simp [hlower]
  rw [Table.has_iff, OpenTag.table, Table.mem_names_ofPairs, hpairs]
  simp

theorem enclosure_strictAttr {loose : List Text} (h : ∀ M ∈ loose, IsMarker M) (M : Text) :
    (enclosure loose).table.has (strictAttr M) = false := by
  rw [Bool.eq_false_iff, ne_eq, has_enclosure h]
  intro hmem
  obtain ⟨N, -, e⟩ := List.mem_map.1 hmem
  exact looseAttr_ne_strictAttr N M e

theorem enclosure_looseAttr {loose : List Text} (h : ∀ M ∈ loose, IsMarker M) (M : Text) :
    (enclosure loose).table.has (looseAttr M) = true ↔ M ∈ loose := by
  rw [has_enclosure h, List.mem_map_of_injective looseAttr_injective]

theorem isFreeOf_enclosure {loose : List Text} (h : ∀ M ∈ loose, IsMarker M) {M : Text}
    (hM : M ∉ loose) : (enclosure loose).IsFreeOf M := by
  refine ⟨?_, enclosure_strictAttr h M⟩
  rw [Bool.eq_false_iff, ne_eq, enclosure_looseAttr h]
  exact hM

/-- The elements of an enclosed document: the enclosure, if there is one, and what is in it. -/
theorem Document.elements_enclosed (loose : List Text) (d : Document) :
    (d.enclosed loose).elements
      = (if loose.isEmpty then [] else [(enclosure loose, d)]) ++ d.elements := by
  rw [enclosed]
  split
  · rfl
  · simp [inside]

end Html

theorem Expansion.supplied_drawn (x : Expansion) {markers : Markers}
    (h : ∀ m ∈ x.marks, ∃ n, m.marker = markers (n + 1)) :
    ∀ M ∈ x.drawn, ∃ n, M = markers (n + 1) := by
  intro M hM
  obtain ⟨m, hm, rfl⟩ := List.mem_map.1 hM
  exact h m hm

theorem Expansion.supplied_loose (x : Expansion) {markers : Markers}
    (h : ∀ m ∈ x.marks, ∃ n, m.marker = markers (n + 1)) :
    ∀ M ∈ x.loose, ∃ n, M = markers (n + 1) := fun M hM =>
  x.supplied_drawn h M (loose_subset hM)

theorem Expansion.supplied_strict (x : Expansion) {markers : Markers}
    (h : ∀ m ∈ x.marks, ∃ n, m.marker = markers (n + 1)) :
    ∀ M ∈ x.strict, ∃ n, M = markers (n + 1) := fun M hM =>
  x.supplied_drawn h M (strict_subset hM)

/-- When no marker is drawn twice, none is loose and strict. -/
theorem Expansion.not_strict_of_loose {x : Expansion} (h : x.drawn.Nodup) {M : Text}
    (hloose : M ∈ x.loose) : M ∉ x.strict := by
  intro hstrict
  have hl : ⟨.loose, M⟩ ∈ x.marks := ScopeMark.mem_ofKind.1 hloose
  have hs : ⟨.strict, M⟩ ∈ x.marks := ScopeMark.mem_ofKind.1 hstrict
  have hsame := List.inj_on_of_nodup_map h hl hs rfl
  simp at hsame

/-! ## The elements of an expansion -/

namespace ScopeExpands

variable {store : Store} {markers : Markers} {strict : List Text} {d out : Document}
  {xs : List Expansion}

/-- An element of an expansion: one with the strict markers in force where it stood, or one that
was left around a fragment. -/
def IsMarkedOrLeft (markers : Markers) (strict : List Text) (xs : List Expansion)
    (y : OpenTag × Document) : Prop :=
  (∃ (t : OpenTag) (inForce : List Text), y.1 = t.marked inForce ∧ t.IsMarkable markers ∧
    strict ⊆ inForce ∧ ∀ M ∈ inForce, M ∈ strict ∨ ∃ x ∈ xs, M ∈ x.strict) ∨
  ∃ x ∈ xs, x.loose ≠ [] ∧ y = (enclosure x.loose, x.out)

theorem IsMarkedOrLeft.mono {strict' : List Text} {ys : List Expansion} {y : OpenTag × Document}
    (h : IsMarkedOrLeft markers strict' ys y) (hstrict : strict ⊆ strict')
    (hback : ∀ M ∈ strict', M ∈ strict ∨ ∃ x ∈ xs, M ∈ x.strict) (hxs : ys ⊆ xs) :
    IsMarkedOrLeft markers strict xs y := by
  rcases h with ⟨t, inForce, hy, ht, hsub, hfrom⟩ | ⟨x, hx, h⟩
  · refine Or.inl ⟨t, inForce, hy, ht, fun M hM => hsub (hstrict hM), fun M hM => ?_⟩
    rcases hfrom M hM with hM | ⟨x, hx, hM⟩
    exacts [hback M hM, Or.inr ⟨x, hxs hx, hM⟩]
  · exact Or.inr ⟨x, hxs hx, h⟩

section

variable (hstore : store.Holds (Document.IsStyled markers))
  (hmarkers : ∀ n, IsMarker (markers (n + 1)))

include hstore hmarkers

/-- What a confined fragment of the store becomes can be marked. -/
theorem isMarkable_of_confines {tag : OpenTag} {body e : Document} {ms : List ScopeMark}
    (hbody : body.WellFormed) (hsource : body.source = fragmentText store tag)
    (hconfines : body.Confines ms e) (hms : ∀ m ∈ ms, ∃ n, m.marker = markers (n + 1)) :
    e.IsMarkable markers := by
  obtain ⟨body', hstyled, hsource'⟩ :=
    hstore.exists_fragment (Document.isStyled_text_nil markers) tag
  obtain ⟨rfl, -⟩ := hbody.source_inj hstyled.wellFormed endsContent_nil endsContent_nil
    (by rw [hsource, hsource'])
  refine hconfines.isMarkable hstyled.toIsMarkable fun m hm => ?_
  obtain ⟨n, hn⟩ := hms m hm
  rw [hn]
  exact (hmarkers n).lt_not_mem

/-- Every element of an expansion is marked or was left around a fragment. -/
theorem markedOrLeft (h : ScopeExpands store strict d xs out)
    (hd : ∀ y ∈ d.elements, y.1.IsMarkable markers)
    (hxs : ∀ x ∈ xs, ∀ m ∈ x.marks, ∃ n, m.marker = markers (n + 1)) :
    ∀ y ∈ out.elements, IsMarkedOrLeft markers strict xs y := by
  induction h with
  | text s => simp
  | @element strict before tag content content' rest rest' xs ys _ _ _ ihc ihr =>
      have hc := ihc (fun y hy => hd y (by simp [hy])) fun x hx => hxs x (by simp [hx])
      have hr := ihr (fun y hy => hd y (by simp [hy])) fun x hx => hxs x (by simp [hx])
      intro y hy
      simp only [Document.elements_element, List.mem_cons, List.mem_append] at hy
      rcases hy with rfl | hy | hy
      · exact Or.inl ⟨tag, strict, rfl, hd (tag, content) (by simp), fun M hM => hM,
          fun M hM => Or.inl hM⟩
      · exact (hc y hy).mono (fun M hM => hM) (fun M hM => Or.inl hM) (by simp)
      · exact (hr y hy).mono (fun M hM => hM) (fun M hM => Or.inl hM) (by simp)
  | @fragment strict before tag content rest body e out rest' ms xs ys _ hwf hsource hconfines _ _
      ihe ihr =>
      have hms := hxs ⟨tag, ms, out⟩ (by simp)
      have he := isMarkable_of_confines hstore hmarkers hwf hsource hconfines hms
      have hout := ihe he.tags fun x hx => hxs x (by simp [hx])
      have hr := ihr (fun y hy => hd y (by simp [hy])) fun x hx => hxs x (by simp [hx])
      intro y hy
      simp only [Document.elements_append, Document.elements_text, List.nil_append,
        Document.elements_enclosed, List.mem_append] at hy
      rcases hy with (hy | hy) | hy
      · -- the enclosure of this fragment
        split at hy
        · simp at hy
        · rename_i hloose
          obtain rfl := List.mem_singleton.1 hy
          exact Or.inr ⟨⟨tag, ms, out⟩, by simp, by simpa [Expansion.loose] using hloose, rfl⟩
      · refine (hout y hy).mono (List.subset_append_left _ _) (fun M hM => ?_)
          fun x hx => by simp [hx]
        rcases List.mem_append.1 hM with hM | hM
        exacts [Or.inl hM, Or.inr ⟨⟨tag, ms, out⟩, by simp, hM⟩]
      · exact (hr y hy).mono (fun M hM => hM) (fun M hM => Or.inl hM) fun x hx => by simp [hx]

/-- A marker that is neither in force nor drawn on the way is carried by nothing. -/
theorem isFreeOf (h : ScopeExpands store strict d xs out)
    (hd : ∀ y ∈ d.elements, y.1.IsMarkable markers)
    (hstrict : ∀ M ∈ strict, ∃ n, M = markers (n + 1))
    (hxs : ∀ x ∈ xs, ∀ m ∈ x.marks, ∃ n, m.marker = markers (n + 1)) {M : Text}
    (hM : ∃ n, M = markers (n + 1)) (hnot : M ∉ strict) (hdrawn : ∀ x ∈ xs, M ∉ x.drawn) :
    ∀ y ∈ out.elements, y.1.IsFreeOf M := by
  intro y hy
  rcases h.markedOrLeft hstore hmarkers hd hxs y hy with
    ⟨t, inForce, hyt, ht, -, hfrom⟩ | ⟨x, hx, -, rfl⟩
  · rw [hyt]
    refine ht.isFreeOf_marked hmarkers (fun N hN => ?_) hM fun hN => ?_
    · rcases hfrom N hN with hN | ⟨x, hx, hN⟩
      exacts [hstrict N hN, x.supplied_strict (hxs x hx) N hN]
    · rcases hfrom M hN with hN | ⟨x, hx, hN⟩
      exacts [hnot hN, hdrawn x hx (Expansion.strict_subset hN)]
  · refine isFreeOf_enclosure ?_ fun hN => hdrawn x hx (Expansion.loose_subset hN)
    exact isMarker_of_supplied hmarkers (x.supplied_loose (hxs x hx))

/-- A strict marker in force is carried by all elements but style sheets and those that were left
around a fragment, which are the ones with loose markers. -/
theorem has_strictAttr_iff (h : ScopeExpands store strict d xs out)
    (hd : ∀ y ∈ d.elements, y.1.IsMarkable markers)
    (hstrict : ∀ M ∈ strict, ∃ n, M = markers (n + 1))
    (hxs : ∀ x ∈ xs, ∀ m ∈ x.marks, ∃ n, m.marker = markers (n + 1)) {n : Nat}
    (hn : markers (n + 1) ∈ strict) :
    ∀ y ∈ out.elements, (y.1.table.has (strictAttr (markers (n + 1))) = true
      ↔ y.1.name ≠ sheetName ∧ ∀ k, y.1.table.has (looseAttr (markers (k + 1))) = false) := by
  intro y hy
  rcases h.markedOrLeft hstore hmarkers hd hxs y hy with
    ⟨t, inForce, hyt, ht, hsub, hfrom⟩ | ⟨x, hx, hloose, rfl⟩
  · have hinForce : ∀ M ∈ inForce, ∃ n, M = markers (n + 1) := by
      intro M hM
      rcases hfrom M hM with hM | ⟨x, hx, hM⟩
      exacts [hstrict M hM, x.supplied_strict (hxs x hx) M hM]
    rw [hyt, ht.marked_strictAttr hmarkers hinForce, OpenTag.name_marked]
    simp [ht.marked_looseAttr hmarkers hinForce, hsub hn]
  · have hsupplied := x.supplied_loose (hxs x hx)
    have hmarker := isMarker_of_supplied hmarkers hsupplied
    obtain ⟨M, hM⟩ := List.exists_mem_of_ne_nil _ hloose
    obtain ⟨k, rfl⟩ := hsupplied M hM
    constructor
    · intro hhas
      rw [enclosure_strictAttr hmarker] at hhas
      exact absurd hhas (by decide)
    · rintro ⟨-, hnone⟩
      have hcarried := (enclosure_looseAttr hmarker (markers (k + 1))).2 hM
      rw [hnone k] at hcarried
      exact absurd hcarried (by decide)

end
end ScopeExpands

/-! ## Where the markers of an import are -/

namespace Expansion

/-- Whether none of some elements carries a marker of an import. -/
def IsAbsentFrom (x : Expansion) (l : List (OpenTag × Document)) : Prop :=
  ∀ y ∈ l, ∀ M ∈ x.drawn, y.1.IsFreeOf M

theorem isAbsentFrom_append {x : Expansion} {l r : List (OpenTag × Document)} :
    x.IsAbsentFrom (l ++ r) ↔ x.IsAbsentFrom l ∧ x.IsAbsentFrom r := List.forall_mem_append

/-- The element around a fragment carries the loose markers of the fragment only. -/
theorem isAbsentFrom_enclosure (y : Expansion) {x : Expansion} {markers : Markers}
    (hmarkers : ∀ n, IsMarker (markers (n + 1)))
    (hx : ∀ m ∈ x.marks, ∃ n, m.marker = markers (n + 1)) (h : ∀ M ∈ y.drawn, M ∉ x.loose) :
    y.IsAbsentFrom (if x.loose.isEmpty then [] else [(enclosure x.loose, x.out)]) := by
  intro z hz M hM
  split at hz
  · simp at hz
  · obtain rfl := List.mem_singleton.1 hz
    exact isFreeOf_enclosure (isMarker_of_supplied hmarkers (x.supplied_loose hx)) (h M hM)

/-- Whether what stands in the place of an import stands in a document as one piece, outside of
which its markers are not carried. Inside, its loose markers are not carried once more, and its
strict ones by all that can carry them. -/
structure StandsIn (markers : Markers) (x : Expansion) (d : Document) : Prop where
  placed : ∃ pre post, d.elements = pre ++ x.placed.elements ++ post ∧ x.IsAbsentFrom (pre ++ post)
  loose : ∀ M ∈ x.loose, ∀ y ∈ x.out.elements, y.1.table.has (looseAttr M) = false
  strict : ∀ M ∈ x.strict, ∀ y ∈ x.out.elements, (y.1.table.has (strictAttr M) = true
    ↔ y.1.name ≠ sheetName ∧ ∀ k, y.1.table.has (looseAttr (markers (k + 1))) = false)

variable {markers : Markers} {d₁ d₂ d : Document} {l r : List (OpenTag × Document)}

/-- What stands in a part of a document stands in the document, when its markers are not carried
in the other parts. -/
theorem StandsIn.widen {x : Expansion} (h : x.StandsIn markers d₁)
    (hd : d.elements = l ++ d₁.elements ++ r) (hl : x.IsAbsentFrom l) (hr : x.IsAbsentFrom r) :
    x.StandsIn markers d := by
  obtain ⟨pre, post, hplaced, habsent⟩ := h.placed
  rw [isAbsentFrom_append] at habsent
  refine ⟨⟨l ++ pre, post ++ r, by simp [hd, hplaced], ?_⟩, h.loose, h.strict⟩
  simp only [isAbsentFrom_append]
  exact ⟨⟨hl, habsent.1⟩, habsent.2, hr⟩

/-- Imports that stand in two parts of a document stand in the document, when neither part
carries the markers of the imports in the other one. -/
theorem standsIn_append {xs ys : List Expansion} (hd : d.elements = l ++ d₁.elements ++ d₂.elements)
    (h₁ : ∀ x ∈ xs, x.StandsIn markers d₁) (h₂ : ∀ x ∈ ys, x.StandsIn markers d₂)
    (hl : ∀ x ∈ xs ++ ys, x.IsAbsentFrom l) (h₁₂ : ∀ x ∈ xs, x.IsAbsentFrom d₂.elements)
    (h₂₁ : ∀ x ∈ ys, x.IsAbsentFrom d₁.elements) : ∀ x ∈ xs ++ ys, x.StandsIn markers d := by
  intro x hx
  have habsent := hl x hx
  rcases List.mem_append.1 hx with hx | hx
  · exact (h₁ x hx).widen hd habsent (h₁₂ x hx)
  · refine (h₂ x hx).widen (r := []) (by rw [hd, List.append_nil]) ?_ (by simp [IsAbsentFrom])
    exact isAbsentFrom_append.2 ⟨habsent, h₂₁ x hx⟩

end Expansion

namespace ScopeExpands

variable {store : Store} {markers : Markers} {strict : List Text} {d out : Document}
  {xs ys : List Expansion}

theorem nodup_left (h : (strict ++ (xs ++ ys).flatMap Expansion.drawn).Nodup) :
    (strict ++ xs.flatMap Expansion.drawn).Nodup := by
  refine h.sublist ((List.Sublist.refl strict).append ?_)
  rw [List.flatMap_append]
  exact List.sublist_append_left _ _

theorem nodup_right (h : (strict ++ (xs ++ ys).flatMap Expansion.drawn).Nodup) :
    (strict ++ ys.flatMap Expansion.drawn).Nodup := by
  refine h.sublist ((List.Sublist.refl strict).append ?_)
  rw [List.flatMap_append]
  exact List.sublist_append_right _ _

/-- What nested imports draw is apart from what is in force for them. -/
theorem nodup_nested {x : Expansion} (h : (strict ++ (x :: xs).flatMap Expansion.drawn).Nodup) :
    ((strict ++ x.strict) ++ xs.flatMap Expansion.drawn).Nodup := by
  refine h.sublist ?_
  rw [List.append_assoc, List.flatMap_cons]
  exact (List.Sublist.refl strict).append
    ((ScopeMark.ofKind_sublist .strict x.marks).append (List.Sublist.refl _))

theorem not_in_force {x : Expansion} (h : (strict ++ xs.flatMap Expansion.drawn).Nodup)
    (hx : x ∈ xs) {M : Text} (hM : M ∈ x.drawn) : M ∉ strict := fun hstrict =>
  (List.nodup_append.1 h).2.2 M hstrict M (List.mem_flatMap.2 ⟨x, hx, hM⟩) rfl

theorem not_drawn_twice {x y : Expansion}
    (h : (strict ++ (xs ++ ys).flatMap Expansion.drawn).Nodup) (hx : x ∈ xs) (hy : y ∈ ys)
    {M : Text} (hM : M ∈ x.drawn) : M ∉ y.drawn := by
  intro hM'
  have hdrawn := (List.nodup_append.1 h).2.1
  rw [List.flatMap_append] at hdrawn
  exact (List.nodup_append.1 hdrawn).2.2 M (List.mem_flatMap.2 ⟨x, hx, hM⟩) M
    (List.mem_flatMap.2 ⟨y, hy, hM'⟩) rfl

section

variable (hstore : store.Holds (Document.IsStyled markers))
  (hmarkers : ∀ n, IsMarker (markers (n + 1)))

include hstore hmarkers

/-- An import is absent from the expansion of another part of the document. -/
theorem isAbsentFrom (h : ScopeExpands store strict d ys out)
    (hd : ∀ y ∈ d.elements, y.1.IsMarkable markers)
    (hstrict : ∀ M ∈ strict, ∃ n, M = markers (n + 1))
    (hys : ∀ y ∈ ys, ∀ m ∈ y.marks, ∃ n, m.marker = markers (n + 1)) {x : Expansion}
    (hx : ∀ m ∈ x.marks, ∃ n, m.marker = markers (n + 1)) (hnot : ∀ M ∈ x.drawn, M ∉ strict)
    (hapart : ∀ y ∈ ys, ∀ M ∈ x.drawn, M ∉ y.drawn) : x.IsAbsentFrom out.elements :=
  fun z hz M hM => h.isFreeOf hstore hmarkers hd hstrict hys (x.supplied_drawn hx M hM)
    (hnot M hM) (fun y hy => hapart y hy M hM) z hz

/-- An import stands in its own place. -/
theorem standsIn_placed {e : Document} {x : Expansion}
    (h : ScopeExpands store (strict ++ x.strict) e xs x.out)
    (he : ∀ y ∈ e.elements, y.1.IsMarkable markers)
    (hstrict : ∀ M ∈ strict ++ x.strict, ∃ n, M = markers (n + 1))
    (hxs : ∀ y ∈ x :: xs, ∀ m ∈ y.marks, ∃ n, m.marker = markers (n + 1))
    (hnodup : (strict ++ ([x] ++ xs).flatMap Expansion.drawn).Nodup) :
    x.StandsIn markers x.placed := by
  have hx := hxs x List.mem_cons_self
  have hdrawn : x.drawn.Nodup := by
    refine hnodup.sublist ?_
    rw [List.singleton_append, List.flatMap_cons]
    exact (List.sublist_append_left _ _).trans (List.sublist_append_right _ _)
  refine ⟨⟨[], [], by simp, by simp [Expansion.IsAbsentFrom]⟩, fun M hM => ?_, fun M hM => ?_⟩
  · have hmem : M ∈ x.drawn := Expansion.loose_subset hM
    have hnot : M ∉ strict ++ x.strict := by
      rw [List.mem_append, not_or]
      exact ⟨not_in_force hnodup (by simp) hmem, Expansion.not_strict_of_loose hdrawn hM⟩
    have hfree := h.isFreeOf hstore hmarkers he hstrict (fun y hy => hxs y (by simp [hy]))
      (x.supplied_loose hx M hM) hnot
      fun y hy => not_drawn_twice hnodup (List.mem_singleton_self x) hy hmem
    exact fun y hy => (hfree y hy).1
  · obtain ⟨n, rfl⟩ := x.supplied_strict hx M hM
    exact h.has_strictAttr_iff hstore hmarkers he hstrict (fun y hy => hxs y (by simp [hy]))
      (List.mem_append_right strict hM)

/-- So does every import that was expanded inside its fragment. -/
theorem standsIn_placed_of_mem {e : Document} {x : Expansion}
    (h : ScopeExpands store (strict ++ x.strict) e xs x.out)
    (he : ∀ y ∈ e.elements, y.1.IsMarkable markers)
    (hstrict : ∀ M ∈ strict ++ x.strict, ∃ n, M = markers (n + 1))
    (hxs : ∀ y ∈ x :: xs, ∀ m ∈ y.marks, ∃ n, m.marker = markers (n + 1))
    (hnodup : (strict ++ ([x] ++ xs).flatMap Expansion.drawn).Nodup)
    (hinside : ∀ y ∈ xs, y.StandsIn markers x.out) :
    ∀ y ∈ x :: xs, y.StandsIn markers x.placed := by
  intro y hy
  rcases List.mem_cons.1 hy with rfl | hy
  · exact standsIn_placed hstore hmarkers h he hstrict hxs hnodup
  · refine (hinside y hy).widen (r := [])
      ((Document.elements_enclosed _ _).trans (List.append_nil _).symm) ?_
      (by simp [Expansion.IsAbsentFrom])
    exact y.isAbsentFrom_enclosure (x := x) hmarkers (hxs x List.mem_cons_self) fun M hM hloose =>
      not_drawn_twice hnodup (List.mem_singleton_self x) hy (Expansion.loose_subset hloose) hM

/-- An import of another part of the document is absent from what stands in the place of an
import. -/
theorem isAbsentFrom_placed {e : Document} {x y : Expansion}
    (h : ScopeExpands store (strict ++ x.strict) e xs x.out)
    (he : ∀ z ∈ e.elements, z.1.IsMarkable markers)
    (hstrict : ∀ M ∈ strict ++ x.strict, ∃ n, M = markers (n + 1))
    (hxs : ∀ z ∈ x :: xs, ∀ m ∈ z.marks, ∃ n, m.marker = markers (n + 1))
    (hy : ∀ m ∈ y.marks, ∃ n, m.marker = markers (n + 1)) (hnot : ∀ M ∈ y.drawn, M ∉ strict)
    (hapart : ∀ z ∈ x :: xs, ∀ M ∈ y.drawn, M ∉ z.drawn) : y.IsAbsentFrom x.placed.elements := by
  have hinForce : ∀ M ∈ y.drawn, M ∉ strict ++ x.strict := by
    intro M hM hmem
    rcases List.mem_append.1 hmem with hmem | hmem
    · exact hnot M hM hmem
    · exact hapart x List.mem_cons_self M hM (Expansion.strict_subset hmem)
  rw [Expansion.placed, Document.elements_enclosed, Expansion.isAbsentFrom_append]
  refine ⟨?_, ?_⟩
  · exact y.isAbsentFrom_enclosure (x := x) hmarkers (hxs x List.mem_cons_self) fun M hM hloose =>
      hapart x List.mem_cons_self M hM (Expansion.loose_subset hloose)
  · exact h.isAbsentFrom hstore hmarkers he hstrict (fun z hz => hxs z (by simp [hz])) hy hinForce
      fun z hz => hapart z (by simp [hz])

/-- Every import that was expanded stands in the expansion. -/
theorem standsIn (h : ScopeExpands store strict d xs out)
    (hd : ∀ y ∈ d.elements, y.1.IsMarkable markers)
    (hstrict : ∀ M ∈ strict, ∃ n, M = markers (n + 1))
    (hxs : ∀ x ∈ xs, ∀ m ∈ x.marks, ∃ n, m.marker = markers (n + 1))
    (hnodup : (strict ++ xs.flatMap Expansion.drawn).Nodup) :
    ∀ x ∈ xs, x.StandsIn markers out := by
  induction h with
  | text s => simp
  | @element strict before tag content content' rest rest' xs ys _ hcontent hrest ihc ihr =>
      have hdc : ∀ y ∈ content.elements, y.1.IsMarkable markers := fun y hy => hd y (by simp [hy])
      have hdr : ∀ y ∈ rest.elements, y.1.IsMarkable markers := fun y hy => hd y (by simp [hy])
      obtain ⟨hxc, hxr⟩ := List.forall_mem_append.1 hxs
      have hnodupc := nodup_left hnodup
      have hnodupr := nodup_right hnodup
      refine Expansion.standsIn_append (l := [(tag.marked strict, content')]) (by simp)
        (ihc hdc hstrict hxc hnodupc) (ihr hdr hstrict hxr hnodupr) ?_ ?_ ?_
      · intro x hx y hy M hM
        obtain rfl := List.mem_singleton.1 hy
        exact (hd (tag, content) (by simp)).isFreeOf_marked hmarkers hstrict
          (x.supplied_drawn (hxs x hx) M hM) (not_in_force hnodup hx hM)
      · exact fun x hx => hrest.isAbsentFrom hstore hmarkers hdr hstrict hxr (hxc x hx)
          (fun M hM => not_in_force hnodupc hx hM) fun y hy M hM => not_drawn_twice hnodup hx hy hM
      · exact fun x hx => hcontent.isAbsentFrom hstore hmarkers hdc hstrict hxc (hxr x hx)
          (fun M hM => not_in_force hnodupr hx hM)
          fun y hy M hM hM' => not_drawn_twice hnodup hy hx hM' hM
  | @fragment strict before tag content rest body e out rest' ms xs ys _ hwf hsource hconfines hout
      hrest ihe ihr =>
      let x : Expansion := ⟨tag, ms, out⟩
      have hdr : ∀ y ∈ rest.elements, y.1.IsMarkable markers := fun y hy => hd y (by simp [hy])
      obtain ⟨hxp, hxr⟩ : (∀ y ∈ x :: xs, ∀ m ∈ y.marks, ∃ n, m.marker = markers (n + 1)) ∧
          ∀ y ∈ ys, ∀ m ∈ y.marks, ∃ n, m.marker = markers (n + 1) :=
        List.forall_mem_append.1 hxs
      have hhead := hxp x List.mem_cons_self
      have he := isMarkable_of_confines hstore hmarkers hwf hsource hconfines hhead
      have hinForce : ∀ M ∈ strict ++ x.strict, ∃ n, M = markers (n + 1) :=
        List.forall_mem_append.2 ⟨hstrict, x.supplied_strict hhead⟩
      have hnodupAll : (strict ++ ((x :: xs) ++ ys).flatMap Expansion.drawn).Nodup := hnodup
      have hnodupp := nodup_left hnodupAll
      have hnodupr := nodup_right hnodupAll
      have hplaced := standsIn_placed_of_mem hstore hmarkers hout he.tags hinForce hxp hnodupp <|
        ihe he.tags hinForce (fun z hz => hxp z (by simp [hz])) (nodup_nested hnodupp)
      refine Expansion.standsIn_append (l := []) (by simp [x, Expansion.placed, Expansion.loose])
        hplaced (ihr hdr hstrict hxr hnodupr) (by simp [Expansion.IsAbsentFrom]) ?_ ?_
      · exact fun y hy => hrest.isAbsentFrom hstore hmarkers hdr hstrict hxr (hxp y hy)
          (fun M hM => not_in_force hnodupp hy hM)
          fun z hz M hM => not_drawn_twice hnodupAll hy hz hM
      · exact fun y hy => isAbsentFrom_placed hstore hmarkers hout he.tags hinForce hxp (hxr y hy)
          (fun M hM => not_in_force hnodupr hy hM)
          fun z hz M hM hM' => not_drawn_twice hnodupAll hz hy hM' hM

end
end ScopeExpands
end Stencil
