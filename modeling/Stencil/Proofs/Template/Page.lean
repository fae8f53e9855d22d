import Stencil.Proofs.Template.Compile

set_option autoImplicit false

/-! # Pages

A page is a template for which nothing is supplied. Compiling it gives the source of its
expansion, or fails because a chain of imports is longer than the limit.
-/

namespace Stencil

open Text Html Vocabulary

namespace Html.Document

/-- A page as a document whose slots are filled: every slot keeps its own content. -/
def page (d : Document) : Document := d.fill fun _ => none

end Html.Document

namespace Compiler

variable {c : Compiler}

/-- A chain of imports takes up all levels if and only if one is longer than the limit. -/
theorem importChain_levelsAt {d : Document} :
    ImportChain c.store d (c.levelsAt 0)
      ↔ ∃ n : Nat, c.maxDepth < n ∧ ImportChain c.store d n := by
  have hlevels : c.levelsAt 0 = (c.maxDepth + 1).toNat := by simp [levelsAt]
  rw [hlevels]
  constructor
  · intro h
    exact ⟨_, by omega, h⟩
  · rintro ⟨n, hn, h⟩
    exact h.of_le (by omega)

/-- How compiling a page ends. -/
theorem compile_ends (hstore : c.store.Holds Document.IsTemplate) {d : Document}
    (hd : d.IsTemplate) (s : Session) :
    (c.compile d.source).Ends s
      (fun t _ => (∃ out, Expands c.store d.page out ∧ out.source = t) ∧
        ¬ ∃ n : Nat, c.maxDepth < n ∧ ImportChain c.store d.page n)
      (fun e => e = .tooDeep c.maxDepth ∧
        ∃ n : Nat, c.maxDepth < n ∧ ImportChain c.store d.page n) := by
  refine (c.expanding hstore (c.levelsAt 0) Slots.holds_none (by simp) hd false s).mono ?_ ?_
  · rintro t s' ⟨out, framed, rfl, hframed, -, hout, hchain⟩
    obtain rfl : framed = false := by simpa using hframed
    exact ⟨⟨out, hout, rfl⟩, fun hn => hchain (importChain_levelsAt.2 hn)⟩
  · rintro e ⟨he, hchain⟩
    exact ⟨he, importChain_levelsAt.1 hchain⟩

/-- Compiling a page gives the source of its one expansion, when no chain of imports is longer
than the limit; else it fails for that reason. -/
theorem compile_source (hstore : c.store.Holds Document.IsTemplate) {d : Document}
    (hd : d.IsTemplate) (s : Session) :
    (c.compile d.source).Ends s
      (fun t _ => ∃ out, Expands c.store d.page out ∧ out.source = t ∧
        ∀ out', Expands c.store d.page out' → out' = out)
      (fun e => e = .tooDeep c.maxDepth ∧
        ∃ n : Nat, c.maxDepth < n ∧ ImportChain c.store d.page n) := by
  refine (compile_ends hstore hd s).mono ?_ fun _ he => he
  rintro t s' ⟨⟨out, hout, hsource⟩, -⟩
  exact ⟨out, hout, hsource, fun out' hout' => hout'.unique hout⟩

/-- A fragment with a named slot, a default slot and an import of a missing fragment. -/
def card : Document :=
  .element [] ⟨"div".text, [⟨[' '], "Class".text, "card".text⟩], []⟩
    (.element [] (.bare "h2".text)
      (.element [] ⟨slotTag, [⟨[' '], "name".text, "title".text⟩], []⟩
        (.text "Untitled".text) (.text []))
      (.element [] (.bare slotTag) (.text []) (.element []
        ⟨importTag, [⟨[' '], "src".text, "missing".text⟩], []⟩ (.text []) (.text []))))
    (.text [])

/-- A page that imports the card twice. -/
def cardPage : Document :=
  .element [] ⟨importTag, [⟨[' '], "src".text, "card".text⟩], []⟩
    (.element [] ⟨templateTag, [⟨[' '], "name".text, "title".text⟩], []⟩
      (.element [] (.bare "b".text) (.text "Hi".text) (.text []))
      (.text " all ".text))
    (.element " ".text ⟨importTag, [⟨[' '], "src".text, "card".text⟩], []⟩ (.text [])
      (.text []))

/-- A compiler that knows the card. -/
def cardCompiler : Compiler where
  store := ⟨"_imports".text, "_imports".text, [("_imports/card.html".text, card.source)]⟩
  activeClass := []
  markdown := .ok
  maxDepth := 2
  markers := fun _ => []

theorem compile_source_card :
    cardCompiler.store.Holds Document.IsTemplate ∧ cardPage.IsTemplate ∧
      ∃ out, Expands cardCompiler.store cardPage.page out ∧ out.source =
        ("<div Class=\"card\"><h2><b>Hi</b></h2>all</div> " ++
          "<div Class=\"card\"><h2>Untitled</h2></div>").text := by
  have hstore : cardCompiler.store.Holds Document.IsTemplate := by
    intro entry hentry
    obtain rfl := List.mem_singleton.1 hentry
    exact ⟨card, by decide +kernel, rfl⟩
  have hpage : cardPage.IsTemplate := by decide +kernel
  refine ⟨hstore, hpage, ?_⟩
  have hends := compile_source hstore hpage .start
  have hrun : (cardCompiler.compile cardPage.source).outcome .start
      = (.ok ("<div Class=\"card\"><h2><b>Hi</b></h2>all</div> " ++
          "<div Class=\"card\"><h2>Untitled</h2></div>").text, ⟨0, []⟩) := by
    decide +kernel
  obtain ⟨out, hout, hsource, -⟩ := hends.of_ok hrun
  exact ⟨out, hout, hsource⟩

end Compiler
end Stencil
