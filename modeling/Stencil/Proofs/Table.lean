import Mathlib.Tactic.Common
import Stencil.Table

set_option autoImplicit false

/-! # The names of a table

A table that is made from pairs has each of their names once, and all its entries are among
the pairs.
-/

namespace Stencil.Table

/-- The names of a table. -/
def names (t : Table) : List Text := t.map Prod.fst

theorem has_iff {t : Table} {name : Text} : t.has name = true ↔ name ∈ t.names := by
  rw [has, get?, List.lookup_isSome_iff, names, List.mem_map]
  constructor
  · rintro ⟨x, hx, h⟩
    exact ⟨x, hx, (beq_iff_eq.1 h).symm⟩
  · rintro ⟨x, hx, h⟩
    exact ⟨x, hx, beq_iff_eq.2 h.symm⟩

/-! ## Giving a name a value -/

theorem set_of_not_mem {t : Table} {name : Text} (value : Text) (h : name ∉ t.names) :
    set name value t = t ++ [(name, value)] := by
  induction t with
  | nil => rfl
  | cons a t ih =>
      obtain ⟨n, v⟩ := a
      simp only [names, List.map_cons, List.mem_cons, not_or] at h
      rw [set, if_neg fun e => h.1 e.symm, ih h.2]
      rfl

theorem mem_of_mem_set {t : Table} {name value : Text} {x : Text × Text} (hx : x ∈ set name value t) :
    x = (name, value) ∨ x ∈ t := by
  induction t with
  | nil => exact Or.inl (List.mem_singleton.1 hx)
  | cons a t ih =>
      obtain ⟨n, v⟩ := a
      rw [set] at hx
      split at hx
      · rename_i hn
        rw [hn] at hx
        rcases List.mem_cons.1 hx with rfl | hx
        exacts [Or.inl rfl, Or.inr (List.mem_cons_of_mem _ hx)]
      · rcases List.mem_cons.1 hx with rfl | hx
        · exact Or.inr List.mem_cons_self
        · exact (ih hx).imp id (List.mem_cons_of_mem _)

theorem mem_names_set (t : Table) (name value n : Text) :
    n ∈ (set name value t).names ↔ n = name ∨ n ∈ t.names := by
  induction t with
  | nil => simp [set, names]
  | cons a t ih =>
      obtain ⟨m, v⟩ := a
      rw [set]
      split
      · rename_i hm
        simp [names, hm]
      · have ih' : n ∈ List.map Prod.fst (set name value t) ↔ n = name ∨ n ∈ List.map Prod.fst t := ih
        simp only [names, List.map_cons, List.mem_cons, ih']
        exact or_left_comm

theorem nodup_names_set {t : Table} (h : t.names.Nodup) (name value : Text) :
    (set name value t).names.Nodup := by
  induction t with
  | nil => simp [set, names]
  | cons a t ih =>
      obtain ⟨m, v⟩ := a
      obtain ⟨hm, ht⟩ := List.nodup_cons.1 h
      rw [set]
      split
      · exact List.nodup_cons.2 ⟨hm, ht⟩
      · rename_i hne
        refine List.nodup_cons.2 ⟨fun hmem => ?_, ih ht⟩
        rcases (mem_names_set t name value m).1 hmem with rfl | hmem
        exacts [hne rfl, hm hmem]

theorem get?_set_of_ne {name n : Text} (h : n ≠ name) (value : Text) (t : Table) :
    get? (set name value t) n = get? t n := by
  have hn : (n == name) = false := by simpa using h
  induction t with
  | nil => simp [set, get?, hn]
  | cons a t ih =>
      obtain ⟨k, v⟩ := a
      rw [get?] at ih ⊢
      rw [set]
      split
      · rename_i hk
        subst hk
        rw [List.lookup_cons, hn]
        simp [get?, List.lookup_cons, hn]
      · rw [List.lookup_cons, ih, get?, get?, List.lookup_cons]

/-- A table with a value for a name: in the old place of the name, or at the end. -/
def put (name value : Text) (t : Table) : Table :=
  if t.has name then t.map fun x => if x.1 = name then (name, value) else x
  else t ++ [(name, value)]

/-- In a table that has each name once, a value takes the place of the old one and nothing else
changes. -/
theorem set_eq_put {t : Table} (h : t.names.Nodup) (name value : Text) :
    set name value t = put name value t := by
  by_cases hmem : name ∈ t.names
  · rw [put, if_pos (has_iff.2 hmem)]
    induction t with
    | nil => cases hmem
    | cons a t ih =>
        obtain ⟨n, v⟩ := a
        obtain ⟨hn, ht⟩ := List.nodup_cons.1 h
        rw [set, List.map_cons]
        by_cases hname : n = name
        · subst hname
          rw [if_pos rfl, if_pos rfl]
          refine congrArg _ ((List.map_id t).symm.trans (List.map_congr_left fun x hx => ?_))
          have hne : x.1 ≠ n := fun e => hn (List.mem_map.2 ⟨x, hx, e⟩)
          rw [if_neg hne]
          rfl
        · rw [if_neg hname, if_neg hname,
            ih ht ((List.mem_cons.1 hmem).resolve_left fun e => hname e.symm)]
  · rw [put, if_neg (mt has_iff.1 hmem)]
    exact set_of_not_mem value hmem

theorem mem_names_put {t : Table} (h : t.names.Nodup) (name value n : Text) :
    n ∈ (put name value t).names ↔ n = name ∨ n ∈ t.names := by
  rw [← set_eq_put h, mem_names_set]

theorem nodup_names_put {t : Table} (h : t.names.Nodup) (name value : Text) :
    (put name value t).names.Nodup := by
  rw [← set_eq_put h]
  exact nodup_names_set h name value

theorem mem_of_get? {t : Table} {name value : Text} (h : get? t name = some value) :
    (name, value) ∈ t := by
  obtain ⟨a, b, rfl, -⟩ := List.lookup_eq_some_iff.1 h
  simp

theorem get?_eq_some_iff {t : Table} {name value : Text} (h : t.names.Nodup) :
    get? t name = some value ↔ (name, value) ∈ t := by
  constructor
  · exact mem_of_get?
  · intro hmem
    obtain ⟨front, rest, rfl⟩ := List.append_of_mem hmem
    refine List.lookup_eq_some_iff.2 ⟨front, rest, rfl, fun x hx => ?_⟩
    rw [names, List.map_append, List.map_cons, List.nodup_append] at h
    have hne := h.2.2 x.1 (List.mem_map_of_mem hx) name List.mem_cons_self
    simpa using hne.symm

/-! ## Taking a name out -/

theorem erase_of_not_mem {t : Table} {name : Text} (h : name ∉ t.names) : t.erase name = t := by
  refine List.filter_eq_self.2 fun x hx => ?_
  rw [decide_eq_true_eq]
  exact fun e => h (List.mem_map.2 ⟨x, hx, e⟩)

theorem erase_erase (t : Table) (name : Text) : (t.erase name).erase name = t.erase name := by
  simp [erase]

theorem get?_erase_of_ne {name n : Text} (h : n ≠ name) (t : Table) :
    get? (t.erase name) n = get? t n := by
  induction t with
  | nil => rfl
  | cons a t ih =>
      obtain ⟨k, v⟩ := a
      rw [get?] at ih ⊢
      rw [erase, List.filter_cons]
      by_cases hk : k = name
      · have hne : (n == k) = false := by simpa [hk] using h
        rw [if_neg (by simpa using hk), get?, List.lookup_cons, hne]
        exact ih
      · rw [if_pos (by simpa using hk), get?, List.lookup_cons, List.lookup_cons]
        split
        exacts [rfl, ih]

theorem erase_set_of_ne {name n : Text} (h : name ≠ n) (value : Text) (t : Table) :
    (set name value t).erase n = set name value (t.erase n) := by
  induction t with
  | nil => simp [set, erase, h]
  | cons a t ih =>
      obtain ⟨k, v⟩ := a
      rw [erase] at ih ⊢
      by_cases hk : k = name
      · subst hk
        simp [set, erase, h]
      · by_cases hn : k = n
        · subst hn
          simpa [set, erase, hk] using ih
        · simpa [set, erase, hk, hn] using ih

/-! ## Tables from pairs -/

theorem mem_of_mem_ofPairs {pairs : List (Text × Text)} {x : Text × Text} (hx : x ∈ ofPairs pairs) :
    x ∈ pairs := by
  have key : ∀ (pairs : List (Text × Text)) (t : Table),
      x ∈ pairs.foldl (fun t x => set x.1 x.2 t) t → x ∈ t ∨ x ∈ pairs := by
    intro pairs
    induction pairs with
    | nil => intro t h; exact Or.inl h
    | cons a pairs ih =>
        intro t h
        rcases ih (set a.1 a.2 t) h with h | h
        · rcases mem_of_mem_set h with rfl | h
          exacts [Or.inr List.mem_cons_self, Or.inl h]
        · exact Or.inr (List.mem_cons_of_mem a h)
  exact (key pairs [] hx).resolve_left (by simp)

theorem mem_names_ofPairs {pairs : List (Text × Text)} {name : Text} :
    name ∈ (ofPairs pairs).names ↔ name ∈ pairs.map Prod.fst := by
  have key : ∀ (pairs : List (Text × Text)) (t : Table),
      name ∈ (pairs.foldl (fun t x => set x.1 x.2 t) t).names
        ↔ name ∈ t.names ∨ name ∈ pairs.map Prod.fst := by
    intro pairs
    induction pairs with
    | nil => intro t; simp
    | cons a pairs ih =>
        intro t
        show name ∈ (pairs.foldl _ (set a.1 a.2 t)).names ↔ _
        rw [ih, mem_names_set, List.map_cons, List.mem_cons, or_assoc, or_left_comm]
  exact (key pairs []).trans (or_iff_right (by simp [names]))

/-- Pairs of other names leave the value of a name as it is. -/
theorem get?_ofPairs_append {ps qs : List (Text × Text)} {name : Text} (h : ∀ q ∈ qs, name ≠ q.1) :
    get? (ofPairs (ps ++ qs)) name = get? (ofPairs ps) name := by
  have key : ∀ (qs : List (Text × Text)) (t : Table), (∀ q ∈ qs, name ≠ q.1) →
      get? (qs.foldl (fun t x => set x.1 x.2 t) t) name = get? t name := by
    intro qs
    induction qs with
    | nil => intro t _; rfl
    | cons q qs ih =>
        intro t h
        rw [List.foldl_cons, ih _ fun p hp => h p (List.mem_cons_of_mem q hp)]
        exact get?_set_of_ne (h q List.mem_cons_self) q.2 t
  rw [ofPairs, List.foldl_append]
  exact key qs _ h

theorem nodup_names_ofPairs (pairs : List (Text × Text)) : (ofPairs pairs).names.Nodup := by
  have key : ∀ (pairs : List (Text × Text)) (t : Table), t.names.Nodup →
      (pairs.foldl (fun t x => set x.1 x.2 t) t).names.Nodup := by
    intro pairs
    induction pairs with
    | nil => intro t h; exact h
    | cons a pairs ih =>
        intro t h
        exact ih _ (nodup_names_set h a.1 a.2)
  exact key pairs [] (by simp [names])

/-- Pairs with distinct names are a table. -/
theorem ofPairs_eq_self {pairs : List (Text × Text)} (h : (names pairs).Nodup) :
    ofPairs pairs = pairs := by
  have key : ∀ (pairs t : List (Text × Text)), (names (t ++ pairs)).Nodup →
      pairs.foldl (fun t x => set x.1 x.2 t) t = t ++ pairs := by
    intro pairs
    induction pairs with
    | nil => intro t _; simp
    | cons a pairs ih =>
        intro t ht
        obtain ⟨n, v⟩ := a
        have hn : n ∉ names t := by
          simp only [names, List.map_append, List.map_cons, List.nodup_append, List.mem_cons] at ht
          exact fun hm => ht.2.2 n hm n (Or.inl rfl) rfl
        show pairs.foldl _ (set n v t) = _
        rw [set_of_not_mem v hn, ih _ (by simpa using ht)]
        simp
  simpa [ofPairs] using key pairs [] (by simpa using h)

theorem names_erase (t : Table) (name : Text) : (t.erase name).names = t.names.filter (· ≠ name) := by
  simp [erase, names, List.filter_map, Function.comp_def]

end Stencil.Table
