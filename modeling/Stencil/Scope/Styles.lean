import Stencil.Scope.Rules
import Stencil.Scope.Wrapper
import Stencil.Session

set_option autoImplicit false

/-! # Scoped style sheets

A style sheet with the scoping attribute is confined to the fragment it stands in. Each such
sheet draws a marker; its rules ask for the marker, and the markup of the fragment is stamped
with it: the wrapper with the loose ones, every element with the strict ones. Fragments nested
inside inherit the strict markers.
-/

namespace Stencil

open Text Html

/-- The markers in force in a fragment. -/
structure Scope where
  loose : List Text
  strict : List Text
  deriving DecidableEq, Repr

namespace Scope

/-- No marker at all. -/
def empty : Scope := ⟨[], []⟩

/-- The markers of one scope followed by those of another. -/
def append (outer inner : Scope) : Scope :=
  ⟨outer.loose ++ inner.loose, outer.strict ++ inner.strict⟩

/-- A scope with one more marker. -/
def add (scope : Scope) (kind : ScopeKind) (marker : Text) : Scope :=
  match kind with
  | .loose => { scope with loose := scope.loose ++ [marker] }
  | .strict => { scope with strict := scope.strict ++ [marker] }

/-- The kind a scoped style sheet asks for. -/
def kindOf (m : Match) : ScopeKind :=
  if m.attr? Vocabulary.scopingAttr = some "strict".text then .strict else .loose

/-- The line that reports a style sheet with a fault. -/
def warning (fault : Css.Fault) : Text :=
  "[WARN] Unscoped style left as is: ".text ++ fault.message

/-- Confines one style sheet and records its marker. A sheet with a fault keeps its text, and
its marker is not recorded. -/
def confineBlock (markers : Markers) (m : Match) : StateT Scope Work Text := do
  let kind := kindOf m
  let start := startTagText m.tag.name (m.tag.attrs.erase Vocabulary.scopingAttr)
  let marker ← (Work.draw markers : Work Text)
  match kind.confineSheet marker m.inner with
  | .ok css => do
      modify (·.add kind marker)
      pure (start ++ css ++ m.close)
  | .error fault => do
      (Work.write (warning fault) : Work Unit)
      pure (start ++ m.inner ++ m.close)

/-- The elements that hold a scoped style sheet. -/
def scopedSheets : Selector := ⟨some "style".text, [Vocabulary.scopingAttr], [], []⟩

/-- The elements that carry strict markers: all but style sheets and wrappers. -/
def stampedElements : Selector := ⟨none, [], ["style".text], [Vocabulary.wrapperAttr]⟩

/-- Stamps the start tags a selector takes with the attributes they do not have yet. -/
def stamp (names : List Text) (sel : Selector) (limit : Option Int) (markup : Text) :
    Except Overlong Text :=
  if names.isEmpty then pure markup
  else
    let stamped (m : Match) : Text :=
      appendAttributes m.start (names.filter (!m.tag.attrs.has ·))
    Id.run (replaceMatches (fun m => pure (stamped m)) .start sel limit markup).run

/-- Confines the style sheets of a fragment: the fragment inside a wrapper and stamped with its
markers, and the scope its nested imports inherit. -/
def scopeStylesOf (inherited : Scope) (markers : Markers) (markup : Text) :
    Work (Text × Scope) := do
  let confined := replaceMatches (confineBlock markers) .outer scopedSheets none markup
  let (body, own) ← (Work.orFail confined).run empty
  let scope := inherited.append own
  let wrapped ←
    match Wrapper.encloses body with
    | .ok true => pure body
    | .ok false => pure (Wrapper.around body)
    | .error e => throw (.ofReadError e)
  let marked ←
    stamp (own.loose.map Vocabulary.looseAttr) (.ofAttr Vocabulary.wrapperAttr) (some 1) wrapped
  let stamped ← stamp (scope.strict.map Vocabulary.strictAttr) stampedElements none marked
  pure (stamped, scope)

end Scope
end Stencil
