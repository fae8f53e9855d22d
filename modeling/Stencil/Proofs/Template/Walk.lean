import Stencil.Proofs.Template.Page

set_option autoImplicit false

/-! # The depth of imports

On texts in which nothing stands but imports without content, the limit on the depth of
imports is exact: compiling fails if and only if some walk from import to import is longer than
the limit, be it in a cycle or not, and gives the macro expansion of the text otherwise. Walks
and macro expansion are said on the texts themselves.
-/

namespace Stencil

open Text Html Vocabulary

/-! ## Texts with imports -/

/-- An import without content, as it is written. -/
def importText (ref : Text) : Text :=
  [char '<'] ++ importTag ++ " src=\"".text ++ ref ++ "\">".text ++ endTagText importTag

/-- Whether a text may stand between the quotes of an import. -/
def IsReference (ref : Text) : Prop := ∀ c ∈ ref, isValueChar c = true

/-- Running text with imports in it. -/
inductive IsImportText : Text → Prop where
  | text {s : Text} : IsRunning s → IsImportText s
  | cons {s ref rest : Text} : IsRunning s → IsReference ref → IsImportText rest →
      IsImportText (s ++ importText ref ++ rest)

namespace Store

variable (store : Store)

/-- The fragment a reference stands for; a missing one is empty. -/
def fragment (ref : Text) : Text := (store.html? ref).getD []

/-- A walk of some length from text to text: each is the fragment of an import in the one
before. -/
inductive Walk : Text → Text → Nat → Prop where
  | stop (t : Text) : Walk t t 0
  | step {a ref b u : Text} {n : Nat} : IsReference ref → Walk (store.fragment ref) u n →
      Walk (a ++ importText ref ++ b) u (n + 1)

/-- The expansion of a text: every import gives way to the expansion of its fragment. -/
inductive MacroExpands : Text → Text → Prop where
  | text {s : Text} : IsRunning s → MacroExpands s s
  | cons {s ref rest out out' : Text} : IsRunning s → IsReference ref →
      MacroExpands (store.fragment ref) out → MacroExpands rest out' →
      MacroExpands (s ++ importText ref ++ rest) (s ++ out ++ out')

end Store

variable {store : Store}

/-- An import is read off the front of a text in one way. -/
theorem importText_inj {ref ref' r r' : Text} (h : IsReference ref) (h' : IsReference ref')
    (e : importText ref ++ r = importText ref' ++ r') : ref = ref' ∧ r = r' := by
  have hquote : ∀ ref, IsReference ref → ∀ c ∈ ref, (c != '"') = true := by
    intro ref href c hc
    have := href c hc
    simp only [isValueChar, Bool.and_eq_true] at this
    exact this.2
  have hsource : ∀ ref r, importText ref ++ r = [char '<'] ++ importTag ++ " src=\"".text ++
      (ref ++ char '"' :: (char '>' :: (endTagText importTag ++ r))) := by
    intro ref r
    simp [importText]
  rw [hsource, hsource] at e
  obtain ⟨hr, hrest⟩ := append_cons_inj (hquote ref h) (by decide) (hquote ref' h') (by decide)
    (List.append_cancel_left e)
  exact ⟨hr, List.append_cancel_left (List.cons.inj hrest.2).2⟩

/-- Running text ends where the first import begins. -/
theorem running_inj {s s' ref ref' r r' : Text} (hs : IsRunning s) (hs' : IsRunning s')
    (e : s ++ importText ref ++ r = s' ++ importText ref' ++ r') :
    s = s' ∧ importText ref ++ r = importText ref' ++ r' := by
  rw [List.append_assoc, List.append_assoc] at e
  exact append_inj_of_not_mem (not_mem_of_isRunning hs) (not_mem_of_isRunning hs')
    (Or.inr ⟨_, rfl⟩) (Or.inr ⟨_, rfl⟩) e

theorem not_isRunning_importText (s ref r : Text) : ¬ IsRunning (s ++ importText ref ++ r) :=
  fun h => not_mem_of_isRunning h (by simp [importText])

/-- A text has one expansion. -/
theorem Store.MacroExpands.unique {t out out' : Text} (h : store.MacroExpands t out)
    (h' : store.MacroExpands t out') : out = out' := by
  induction h generalizing out' with
  | text hs =>
      cases h' with
      | text _ => rfl
      | cons _ _ _ _ => exact absurd hs (not_isRunning_importText _ _ _)
  | @cons s ref rest out₁ out₂ hs href _ _ ih₁ ih₂ =>
      generalize ht : s ++ importText ref ++ rest = t at h'
      cases h' with
      | text hs' => exact absurd (ht ▸ hs') (not_isRunning_importText _ _ _)
      | cons hs' href' h₁ h₂ =>
          obtain ⟨rfl, e⟩ := running_inj hs hs' ht
          obtain ⟨rfl, rfl⟩ := importText_inj href href' e
          rw [ih₁ h₁, ih₂ h₂]

/-- A walk may go on where it stopped. -/
theorem Store.Walk.trans {t u v : Text} {m n : Nat} (h : store.Walk t u m) (h' : store.Walk u v n) :
    store.Walk t v (m + n) := by
  induction h with
  | stop t => simpa using h'
  | @step a ref b u m href _ ih =>
      rw [Nat.add_right_comm]
      exact .step href (ih h')

/-- A walk that comes back can be walked any number of times. -/
theorem Store.Walk.replicate {t : Text} {n : Nat} (h : store.Walk t t n) (k : Nat) :
    store.Walk t t (k * n) := by
  induction k with
  | zero => simpa using .stop t
  | succ k ih =>
      rw [Nat.succ_mul]
      exact ih.trans h

/-! ## The same on documents -/

namespace Html

/-- The start tag of an import of a reference. -/
def importOpen (ref : Text) : OpenTag := ⟨importTag, [⟨[' '], "src".text, ref⟩], []⟩

theorem wellFormed_importOpen {ref : Text} (h : IsReference ref) : (importOpen ref).WellFormed where
  name := show isElementName importTag = true by decide
  not_void := show importTag ∉ voidNames by decide
  attrs := by
    intro a ha
    obtain rfl := List.mem_singleton.1 ha
    exact ⟨by simp, by simp [IsGap, isIndent], show "src".text ≠ [] by decide,
      show ∀ c ∈ "src".text, isQuotedAttrChar c = true by decide, h⟩
  tail := by simp [importOpen, IsGap]

theorem table_importOpen (ref : Text) : (importOpen ref).table = [("src".text, ref)] := by
  have hlower : lower "src".text = "src".text := by decide +kernel
  show [(lower "src".text, ref)] = _
  rw [hlower]

theorem fragmentText_importOpen (store : Store) (ref : Text) :
    fragmentText store (importOpen ref) = store.fragment ref := by
  rw [fragmentText, OpenTag.attr?, table_importOpen]
  rfl

theorem source_importOpen (ref : Text) :
    (importOpen ref).source ++ endTagText importTag = importText ref := by
  simp [importOpen, importText, OpenTag.source, OpenTag.inside, OpenTag.trailer, QuotedAttr.source]

namespace Document

/-- A document in which nothing stands but imports without content. -/
structure IsImportList (d : Document) : Prop where
  wellFormed : d.WellFormed
  imports : ∀ x ∈ d.elements, ∃ ref, IsReference ref ∧ x = (importOpen ref, .text [])

end Document
end Html

theorem IsImportText.exists_document {t : Text} (h : IsImportText t) :
    ∃ d : Document, d.IsImportList ∧ d.source = t := by
  induction h with
  | @text s hs => exact ⟨.text s, ⟨.text hs, by simp⟩, rfl⟩
  | @cons s ref rest hs href _ ih =>
      obtain ⟨d, hd, rfl⟩ := ih
      refine ⟨.element s (importOpen ref) (.text []) d, ⟨?_, ?_⟩, ?_⟩
      · exact .element hs (wellFormed_importOpen href) (show importTag ∉ RawText.names by decide)
          (.text (by simp [IsRunning])) hd.wellFormed
      · simp only [Document.elements_element, Document.elements_text, List.nil_append,
          List.mem_cons]
        rintro x (rfl | hx)
        exacts [⟨ref, href, rfl⟩, hd.imports x hx]
      · rw [← source_importOpen]
        simp [Document.source, importOpen]

namespace Html

namespace Document.IsImportList

variable {d : Document} (h : d.IsImportList)

include h

theorem lacks {name : Text} (hname : name ≠ importTag) : d.Lacks name := by
  intro x hx
  obtain ⟨ref, -, rfl⟩ := h.imports x hx
  exact Ne.symm hname

theorem isTemplate : d.IsTemplate where
  wellFormed := h.wellFormed
  rawless := rawless_iff.2 fun name hname =>
    h.lacks ((by decide : ∀ n ∈ RawText.names, n ≠ importTag) name hname)
  unwrapped := by
    intro x hx
    obtain ⟨ref, -, rfl⟩ := h.imports x hx
    rw [table_importOpen]
    rfl
  html := by
    intro x hx _
    obtain ⟨ref, -, rfl⟩ := h.imports x hx
    rw [OpenTag.attr?, table_importOpen]
    simp [Table.get?, List.lookup_cons]
  imports := by
    intro x hx _
    obtain ⟨ref, -, rfl⟩ := h.imports x hx
    simp [Lacks]
  slots := fun x hx hn => absurd hn (h.lacks (by decide) x hx)
  placed := templatesPlaced_of_lacks (h.lacks (by decide)) false

theorem fill (supply : Text → Option Document) : d.fill supply = d :=
  fill_of_lacks (h.lacks (by decide))

end Document.IsImportList

/-- The imports of a document are those that stand in its source. -/
theorem Document.IsImportList.mem_iff {d : Document} (h : d.IsImportList) {ref : Text}
    (href : IsReference ref) :
    (importOpen ref, .text []) ∈ d.elements ↔ ∃ a b, d.source = a ++ importText ref ++ b := by
  constructor
  · intro hmem
    obtain ⟨a, b, e⟩ := exists_source_eq hmem
    refine ⟨a, b, ?_⟩
    rw [e, ← source_importOpen]
    simp [source, importOpen]
  · rintro ⟨a, b, e⟩
    obtain ⟨x, hx, hn⟩ := h.wellFormed.exists_of_source_eq (wellFormed_importOpen href)
      (a := a) (b := endTagText importTag ++ b) (by rw [e, ← source_importOpen]; simp)
    obtain ⟨ref', -, rfl⟩ := h.imports x hx
    rw [← hn]
    exact hx

/-- The fragment of an import is a document of imports. -/
theorem exists_importList (hstore : store.Holds Document.IsImportList) (ref : Text) :
    ∃ body : Document, body.IsImportList ∧ body.source = store.fragment ref := by
  obtain ⟨body, hbody, hsource⟩ := hstore.exists_fragment
    ⟨.text (by simp [IsRunning]), by simp⟩ (importOpen ref)
  exact ⟨body, hbody, by rw [hsource, fragmentText_importOpen]⟩

end Html

/-! ## Walks and expansions -/

theorem walk_succ_iff {t : Text} {n : Nat} :
    (∃ u, store.Walk t u (n + 1)) ↔ ∃ ref, IsReference ref ∧ (∃ a b, t = a ++ importText ref ++ b) ∧
      ∃ u, store.Walk (store.fragment ref) u n := by
  constructor
  · rintro ⟨u, h⟩
    cases h with
    | step href h => exact ⟨_, href, ⟨_, _, rfl⟩, u, h⟩
  · rintro ⟨ref, href, ⟨a, b, rfl⟩, u, h⟩
    exact ⟨u, .step href h⟩

/-- On a document of imports, walks are chains of imports. -/
theorem importChain_iff (hstore : store.Holds Document.IsImportList) {d : Document}
    (hd : d.IsImportList) (n : Nat) : ImportChain store d n ↔ ∃ u, store.Walk d.source u n := by
  induction n generalizing d with
  | zero => exact ⟨fun _ => ⟨_, .stop _⟩, fun _ => .stop d⟩
  | succ n ih =>
      have hchain : ∀ ref, ChainFrom store (importOpen ref, .text []) n
          ↔ ∃ u, store.Walk (store.fragment ref) u n := by
        intro ref
        obtain ⟨body, hbody, hsource⟩ := exists_importList hstore ref
        rw [← hsource, ← ih hbody]
        constructor
        · rintro ⟨body', hwf, hsource', h⟩
          rw [fragmentText_importOpen] at hsource'
          obtain ⟨rfl, -⟩ := hbody.wellFormed.source_inj hwf endsContent_nil endsContent_nil
            (by rw [hsource, hsource'])
          rwa [hbody.fill] at h
        · intro h
          exact ⟨body, hbody.wellFormed, by rw [hsource, fragmentText_importOpen],
            by rwa [hbody.fill]⟩
      rw [importChain_succ_iff, walk_succ_iff]
      constructor
      · rintro ⟨x, hx, -, h⟩
        obtain ⟨ref, href, rfl⟩ := hd.imports x hx
        exact ⟨ref, href, (hd.mem_iff href).1 hx, (hchain ref).1 h⟩
      · rintro ⟨ref, href, hmem, h⟩
        exact ⟨_, (hd.mem_iff href).2 hmem, rfl, (hchain ref).2 h⟩

/-- On a document of imports, expanding it expands its source. -/
theorem macroExpands_of_expands (hstore : store.Holds Document.IsImportList) {d out : Document}
    (h : Expands store d out) (hd : d.IsImportList) : store.MacroExpands d.source out.source := by
  induction h with
  | text s => exact .text (by cases hd.wellFormed; assumption)
  | @element before tag content content' rest rest' hn _ _ _ _ =>
      obtain ⟨ref, -, e⟩ := hd.imports (tag, content) (by simp)
      exact absurd (congrArg (fun x => x.1.name) e) hn
  | @fragment before tag content rest body out rest' hn hwf hbody _ _ ihb ihr =>
      obtain ⟨ref, href, e⟩ := hd.imports (tag, content) (by simp)
      obtain ⟨rfl, rfl⟩ := Prod.mk.inj e
      obtain ⟨body', hbody', hsource⟩ := exists_importList hstore ref
      rw [fragmentText_importOpen] at hbody
      obtain ⟨rfl, -⟩ := hwf.source_inj hbody'.wellFormed endsContent_nil endsContent_nil
        (by rw [hbody, hsource])
      have hrest : rest.IsImportList := ⟨hd.wellFormed.rest, fun x hx => hd.imports x (by simp [hx])⟩
      have hout := ihb (by rwa [hbody'.fill])
      rw [hbody'.fill, hbody] at hout
      have key := Store.MacroExpands.cons hd.wellFormed.before href hout (ihr hrest)
      rw [← source_importOpen] at key
      simpa [Document.source, importOpen] using key

/-! ## The limit -/

/-- The limit on the depth of imports is exact: compiling fails if and only if a walk is longer
than the limit, and gives the macro expansion otherwise. A walk that reaches a cycle fails at
every limit. -/
theorem Compiler.compile_tooDeep_iff {c : Compiler}
    (hstore : ∀ entry ∈ c.store.fragments, IsImportText entry.2) {page : Text}
    (hpage : IsImportText page) (s : Session) :
    ((∃ s', (c.compile page).outcome s = (.error (.tooDeep c.maxDepth), s'))
        ↔ ∃ u, ∃ n : Nat, c.store.Walk page u n ∧ c.maxDepth < n) ∧
      ((∀ u, ∀ n : Nat, c.store.Walk page u n → n ≤ c.maxDepth) →
        ∃ t s', (c.compile page).outcome s = (.ok t, s') ∧ c.store.MacroExpands page t ∧
          ∀ t', c.store.MacroExpands page t' → t' = t) ∧
      ∀ u m n, c.store.Walk page u m → c.store.Walk u u (n + 1) →
        ∃ s', (c.compile page).outcome s = (.error (.tooDeep c.maxDepth), s') := by
  have hlists : c.store.Holds Document.IsImportList := fun entry hentry =>
    (hstore entry hentry).exists_document
  have htemplates : c.store.Holds Document.IsTemplate := fun entry hentry =>
    (hlists entry hentry).imp fun d hd => ⟨hd.1.isTemplate, hd.2⟩
  obtain ⟨d, hd, rfl⟩ := hpage.exists_document
  have hfill : d.page = d := hd.fill _
  have hends := compile_ends htemplates hd.isTemplate s
  simp only [hfill, importChain_iff hlists hd] at hends
  -- a walk longer than the limit is a failure, and the other way round
  have hiff : (∃ s', (c.compile d.source).outcome s = (.error (.tooDeep c.maxDepth), s'))
      ↔ ∃ u, ∃ n : Nat, c.store.Walk d.source u n ∧ c.maxDepth < n := by
    constructor
    · rintro ⟨s', hrun⟩
      obtain ⟨-, n, hn, u, h⟩ := hends.of_error hrun
      exact ⟨u, n, h, hn⟩
    · rintro ⟨u, n, h, hn⟩
      obtain ⟨r, s', hrun⟩ : ∃ r s', (c.compile d.source).outcome s = (r, s') := ⟨_, _, rfl⟩
      cases r with
      | ok t => exact absurd ⟨n, hn, u, h⟩ (hends.of_ok hrun).2
      | error e =>
          obtain ⟨rfl, -⟩ := hends.of_error hrun
          exact ⟨s', hrun⟩
  refine ⟨hiff, fun hshort => ?_, fun u m n h hcycle => hiff.2 ?_⟩
  · obtain ⟨r, s', hrun⟩ : ∃ r s', (c.compile d.source).outcome s = (r, s') := ⟨_, _, rfl⟩
    cases r with
    | error e =>
        obtain ⟨-, n, hn, u, h⟩ := hends.of_error hrun
        have := hshort u n h
        omega
    | ok t =>
        obtain ⟨⟨out, hout, rfl⟩, -⟩ := hends.of_ok hrun
        have hmacro := macroExpands_of_expands hlists hout hd
        exact ⟨_, s', hrun, hmacro, fun t' ht' => ht'.unique hmacro⟩
  · -- enough rounds of the cycle make the walk as long as it has to be
    refine ⟨u, _, h.trans (hcycle.replicate (c.maxDepth + 1).toNat), ?_⟩
    have : (c.maxDepth + 1).toNat ≤ (c.maxDepth + 1).toNat * (n + 1) :=
      Nat.le_mul_of_pos_right _ (by omega)
    omega

/-- Fragments of which two import each other, and a third imports what is missing. -/
def ringCompiler : Compiler where
  store := ⟨"_imports".text, "_imports".text,
    [("_imports/a.html".text, "a".text ++ importText "b".text ++ []),
      ("_imports/b.html".text, [] ++ importText "a".text ++ "b".text),
      ("_imports/c.html".text, [] ++ importText "missing".text ++ "c".text)]⟩
  activeClass := []
  markdown := .ok
  maxDepth := 2
  markers := fun _ => []

/-- A page that reaches the ring fails, and a walk just as long as the limit is no failure. -/
theorem compile_tooDeep_iff_ring :
    (∀ entry ∈ ringCompiler.store.fragments, IsImportText entry.2) ∧
      IsImportText (importText "a".text) ∧ IsImportText (importText "c".text) ∧
      (∃ s', (ringCompiler.compile (importText "a".text)).outcome .start
        = (.error (.tooDeep 2), s')) ∧
      ringCompiler.store.Walk (importText "c".text) [] 2 ∧
      ringCompiler.store.MacroExpands (importText "c".text) "c".text := by
  have hcons : ∀ s ref rest : Text, IsRunning s → (∀ c ∈ ref, isValueChar c = true) →
      IsRunning rest → IsImportText (s ++ importText ref ++ rest) :=
    fun s ref rest hs href hrest => .cons hs href (.text hrest)
  have hstore : ∀ entry ∈ ringCompiler.store.fragments, IsImportText entry.2 := by
    intro entry hentry
    rcases List.mem_cons.1 hentry with rfl | hentry
    · exact hcons "a".text "b".text [] (by decide) (by decide) (by decide)
    · rcases List.mem_cons.1 hentry with rfl | hentry
      · exact hcons [] "a".text "b".text (by decide) (by decide) (by decide)
      · obtain rfl := List.mem_singleton.1 hentry
        exact hcons [] "missing".text "c".text (by decide) (by decide) (by decide)
  have hpage : ∀ ref : Text, (∀ c ∈ ref, isValueChar c = true) → IsImportText (importText ref) := by
    intro ref href
    simpa using hcons [] ref [] (by decide) href (by decide)
  have hstep : ∀ {a ref b t u : Text} {n : Nat}, (∀ c ∈ ref, isValueChar c = true) →
      t = a ++ importText ref ++ b → ringCompiler.store.Walk (ringCompiler.store.fragment ref) u n →
      ringCompiler.store.Walk t u (n + 1) := by
    rintro a ref b t u n href rfl h
    exact .step href h
  have ha : ringCompiler.store.fragment "a".text = "a".text ++ importText "b".text ++ [] := by
    decide +kernel
  have hb : ringCompiler.store.fragment "b".text = [] ++ importText "a".text ++ "b".text := by
    decide +kernel
  have hc : ringCompiler.store.fragment "c".text
      = [] ++ importText "missing".text ++ "c".text := by
    decide +kernel
  have hmissing : ringCompiler.store.fragment "missing".text = [] := by decide +kernel
  have hrun : (ringCompiler.compile (importText "c".text)).outcome .start
      = (.ok "c".text, ⟨0, []⟩) := by
    decide +kernel
  refine ⟨hstore, hpage _ (by decide), hpage _ (by decide), ?_, ?_, ?_⟩
  · refine (Compiler.compile_tooDeep_iff hstore (hpage "a".text (by decide)) .start).2.2
      (ringCompiler.store.fragment "a".text) 1 1 ?_ ?_
    · exact hstep (a := []) (b := []) (by decide) (by simp) (.stop _)
    · exact hstep (by decide) ha (hstep (by decide) hb (.stop _))
  · exact hstep (a := []) (b := []) (by decide) (by simp)
      (hstep (by decide) hc (by rw [hmissing]; exact .stop _))
  · have hlimit := Compiler.compile_tooDeep_iff hstore (hpage "c".text (by decide)) .start
    obtain ⟨t, s', ht, hmacro, -⟩ := hlimit.2.1 fun u n h => by
      by_contra hn
      obtain ⟨s', he⟩ := hlimit.1.2 ⟨u, n, h, by omega⟩
      rw [hrun] at he
      simp at he
    rw [hrun] at ht
    obtain rfl : "c".text = t := by simpa using congrArg Prod.fst ht
    exact hmacro

end Stencil
