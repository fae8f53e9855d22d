import Stencil.Proofs.Document.Quiet

set_option autoImplicit false

/-! # A source is the source of one document

Read from the left, a source leaves no choice: running text goes up to the next `<`, a start
tag determines its name and attributes, and content ends where an end tag begins that no start
tag before it has asked for.
-/

namespace Stencil.Html

open Text

/-- What may follow the source of a document: nothing, or an end tag. -/
def EndsContent (r : Text) : Prop := r = [] ∨ ∃ q, r = char '<' :: char '/' :: q

theorem endsContent_nil : EndsContent [] := Or.inl rfl

theorem endsContent_endTagText (name r : Text) : EndsContent (endTagText name ++ r) :=
  Or.inr ⟨name ++ [char '>'] ++ r, by simp [endTagText]⟩

/-- Text without `<` ends where the first `<` stands. -/
theorem append_inj_of_not_mem {s t r q : Text} (hs : char '<' ∉ s) (ht : char '<' ∉ t)
    (hr : r = [] ∨ ∃ r', r = char '<' :: r') (hq : q = [] ∨ ∃ q', q = char '<' :: q')
    (h : s ++ r = t ++ q) : s = t ∧ r = q := by
  induction s generalizing t with
  | nil =>
      cases t with
      | nil => exact ⟨rfl, h⟩
      | cons c t =>
          rcases hr with rfl | ⟨r', rfl⟩
          · simp at h
          · exact absurd ((List.cons.inj h).1 ▸ List.mem_cons_self) ht
  | cons c s ih =>
      cases t with
      | nil =>
          rcases hq with rfl | ⟨q', rfl⟩
          · simp at h
          · exact absurd ((List.cons.inj h).1 ▸ List.mem_cons_self) hs
      | cons d t =>
          obtain ⟨rfl, htail⟩ := List.cons.inj h
          obtain ⟨rfl, rfl⟩ := ih (fun e => hs (List.mem_cons_of_mem _ e))
            (fun e => ht (List.mem_cons_of_mem _ e)) htail
          exact ⟨rfl, rfl⟩

theorem EndsContent.lt {r : Text} (h : EndsContent r) : r = [] ∨ ∃ r', r = char '<' :: r' := by
  rcases h with rfl | ⟨q, rfl⟩
  exacts [Or.inl rfl, Or.inr ⟨_, rfl⟩]

theorem source_eq_cons (t : OpenTag) (r : Text) :
    t.source ++ r = char '<' :: (t.inside ++ char '>' :: r) := by
  simp [OpenTag.source]

/-- What follows content is not a start tag. -/
theorem EndsContent.ne_source {r q : Text} (h : EndsContent r) {t : OpenTag} (ht : t.WellFormed) :
    r ≠ t.source ++ q := by
  rintro rfl
  rw [source_eq_cons] at h
  rcases h with h | ⟨r, h⟩
  · simp at h
  · obtain ⟨c, n, hn, hc⟩ := exists_cons_of_isElementName ht.name
    rw [OpenTag.inside, hn] at h
    rw [(List.cons.inj (List.cons.inj h).2).1] at hc
    exact absurd hc (by decide)

/-- Running text that ends where content ends goes on to no start tag. -/
theorem running_ne_source {s b r q : Text} (hs : IsRunning s) (hb : IsRunning b)
    (hr : EndsContent r) {t : OpenTag} (ht : t.WellFormed) : s ++ r ≠ b ++ (t.source ++ q) := by
  intro h
  obtain ⟨-, rfl⟩ := append_inj_of_not_mem (not_mem_of_isRunning hs) (not_mem_of_isRunning hb)
    hr.lt (Or.inr ⟨_, source_eq_cons t q⟩) h
  exact hr.ne_source ht rfl

/-- Running text up to a start tag, and the start tag, are determined by where they stand. -/
theorem running_source_inj {b b' r q : Text} (hb : IsRunning b) (hb' : IsRunning b')
    {t t' : OpenTag} (ht : t.WellFormed) (ht' : t'.WellFormed)
    (h : b ++ (t.source ++ r) = b' ++ (t'.source ++ q)) : b = b' ∧ t = t' ∧ r = q := by
  obtain ⟨hbefore, htag⟩ := append_inj_of_not_mem (not_mem_of_isRunning hb)
    (not_mem_of_isRunning hb') (Or.inr ⟨_, source_eq_cons t r⟩) (Or.inr ⟨_, source_eq_cons t' q⟩) h
  exact ⟨hbefore, openTag_source_inj ht ht' htag⟩

/-- A source with what may follow it is that of one document only. -/
theorem Document.WellFormed.source_inj {d e : Document} (hd : d.WellFormed) (he : e.WellFormed)
    {r q : Text} (hr : EndsContent r) (hq : EndsContent q) (h : d.source ++ r = e.source ++ q) :
    d = e ∧ r = q := by
  induction hd generalizing e r q with
  | @text s hs =>
      cases he with
      | @text u hu =>
          obtain ⟨rfl, rfl⟩ := append_inj_of_not_mem (not_mem_of_isRunning hs)
            (not_mem_of_isRunning hu) hr.lt hq.lt h
          exact ⟨rfl, rfl⟩
      | element hb ht _ _ _ | raw hb ht _ _ _ =>
          simp only [Document.source, List.append_assoc] at h
          exact absurd h (running_ne_source hs hb hr ht)
  | @element b t content rest hb ht hn hc hrest ihc ihr =>
      cases he with
      | text hu =>
          simp only [Document.source, List.append_assoc] at h
          exact absurd h.symm (running_ne_source hu hb hq ht)
      | element hb' ht' _ hc' hrest' =>
          simp only [Document.source, List.append_assoc] at h
          obtain ⟨rfl, rfl, hcontent⟩ := running_source_inj hb hb' ht ht' h
          obtain ⟨rfl, hend⟩ :=
            ihc hc' (endsContent_endTagText _ _) (endsContent_endTagText _ _) hcontent
          obtain ⟨rfl, rfl⟩ := ihr hrest' hr hq (List.append_cancel_left hend)
          exact ⟨rfl, rfl⟩
      | raw hb' ht' hn' _ _ =>
          simp only [Document.source, List.append_assoc] at h
          obtain ⟨-, rfl, -⟩ := running_source_inj hb hb' ht ht' h
          exact absurd hn' hn
  | @raw b t css rest hb ht hn hcss hrest ihr =>
      cases he with
      | text hu =>
          simp only [Document.source, List.append_assoc] at h
          exact absurd h.symm (running_ne_source hu hb hq ht)
      | element hb' ht' hn' _ _ =>
          simp only [Document.source, List.append_assoc] at h
          obtain ⟨-, rfl, -⟩ := running_source_inj hb hb' ht ht' h
          exact absurd hn hn'
      | raw hb' ht' _ hcss' hrest' =>
          simp only [Document.source, List.append_assoc] at h
          obtain ⟨rfl, rfl, hcontent⟩ := running_source_inj hb hb' ht ht' h
          obtain ⟨rfl, hend⟩ := append_inj_of_not_mem hcss hcss' (endsContent_endTagText _ _).lt
            (endsContent_endTagText _ _).lt hcontent
          obtain ⟨rfl, rfl⟩ := ihr hrest' hr hq (List.append_cancel_left hend)
          exact ⟨rfl, rfl⟩

end Stencil.Html
