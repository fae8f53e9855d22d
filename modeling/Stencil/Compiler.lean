import Stencil.Fragment
import Stencil.Hoist
import Stencil.Link
import Stencil.Scope.Styles
import Stencil.Slot

set_option autoImplicit false

/-! # Compiling templates

A template is expanded in two steps: its slots are filled, then each import is replaced by its
fragment, which is a template again. The number of levels that may still be entered bounds the
expansion, so that fragments which import each other end in a failure.
-/

namespace Stencil

open Text Html

/-- What a page is compiled with. -/
structure Compiler where
  store : Store
  activeClass : Text
  /-- How Markdown becomes HTML. -/
  markdown : Text → Except Overlong Text
  /-- How deep imports may be nested; below zero, no page can be compiled. -/
  maxDepth : Int
  markers : Markers

namespace Compiler

/-- Whether a text holds an import. -/
def holdsImport (body : Text) : Bool := contains body ('<' :: Vocabulary.importTag)

/-- The fragment an import stands for; a missing one is empty. -/
def fragment (c : Compiler) (m : Match) : Except Overlong Text :=
  let ref := (m.attr? "src".text).getD []
  if m.attr? "as".text = some "markdown".text then
    (c.markdown ((c.store.markdown? ref).getD [])).map trim
  else pure ((c.store.html? ref).getD [])

/-- Replaces one import: its fragment is scoped, and compiled with the slots that the content
of the import fills. -/
def expandImport (c : Compiler) (compile : Slots → Scope → Text → Work Text) (scope : Scope)
    (m : Match) : Work Text := do
  let text ← c.fragment m
  let slots ← Slots.ofContent m.inner
  let (body, inner) ← scope.scopeStylesOf c.markers text
  compile slots inner body

/-- Replaces the imports in a text. -/
def expandImports (c : Compiler) (compile : Slots → Scope → Text → Work Text) (scope : Scope)
    (body : Text) : Work Text :=
  Work.orFail
    (replaceMatches (c.expandImport compile scope) .outer (.ofName Vocabulary.importTag) none body)

/-- Compiles a template that may enter the given number of levels, itself included. -/
def template (c : Compiler) : Nat → Slots → Scope → Text → Work Text
  | 0, _, _, _ => throw (.tooDeep c.maxDepth)
  | levels + 1, slots, scope, body => do
      let slots := if slots.isEmpty then Slots.none else slots
      let filled ← slots.fillAll (expandSelfClosing body)
      if holdsImport filled then
        let expanded ← c.expandImports (c.template levels) scope filled
        Wrapper.clear expanded
      else pure filled

/-- The number of levels that may be entered at a depth. -/
def levelsAt (c : Compiler) (depth : Int) : Nat := (c.maxDepth - depth + 1).toNat

/-- Compiles a template that is nested at a depth. -/
def templateAt (c : Compiler) (depth : Int) (slots : Slots) (scope : Scope) (body : Text) :
    Work Text :=
  c.template (c.levelsAt depth) slots scope body

/-- Compiles the text of a page. -/
def compile (c : Compiler) (page : Text) : Work Text := c.templateAt 0 Slots.none .empty page

/-- Compiles a page that is published at a path: imports, then links, then style sheets. -/
def publish (c : Compiler) (path page : Text) : Work Text := do
  let body ← c.compile page
  let linked ← Link.activateAll c.activeClass path body
  Hoist.styles linked

end Compiler
end Stencil
