import Stencil.Html.Match

set_option autoImplicit false

/-! # Patching a source

Elements are replaced in the text of a source, so that everything else keeps every character.
Each replacement takes the first place where the captured text still stands. The replacement
may have effects: `replaceMatches` works in any monad and asks for the replacements in the order of
the elements. It fails where the elements cannot be read, for a number with too many digits.
-/

namespace Stencil.Html

open Text

/-- The part of an element that is replaced. -/
inductive Part where
  | outer
  | inner
  | start
  deriving DecidableEq, Repr

/-- The text of a part of an element. -/
def Match.part (m : Match) : Part → Text
  | .outer => m.outer
  | .inner => m.inner
  | .start => m.start

/-- The elements of a name that stand in a text with nothing but running text inside, even
where a tree has none, as in a value of an attribute. The number counts the characters of the
last one that are still to be passed over. -/
def leftoversFrom (name : Text) : Nat → Text → List Text
  | _, [] => []
  | k + 1, _ :: s => leftoversFrom name k s
  | 0, c :: s =>
      match (after? ('<' :: name) (c :: s)).bind fun r =>
          if (r.takeWhile (· != char '<')).elem (char '>') then
            after? (endTagText name) (r.dropWhile (· != '<'))
          else none with
      | some rest =>
          let length := s.length + 1 - rest.length
          (c :: s).take length :: leftoversFrom name (length - 1) s
      | none => leftoversFrom name 0 s

/-- The elements of a name that stand in a text with nothing but running text inside. -/
def leftovers (name s : Text) : List Text := leftoversFrom name 0 s

section

variable {m : Type → Type} [Monad m] (fn : Match → m Text) (part : Part)

/-- Replaces one element in a text, if its captured text still stands there. -/
def patchOne (body : Text) (found : Match) : m Text :=
  let text := found.part part
  if text.isEmpty || !contains body text then pure body
  else do
    let value ← fn found
    pure (replaceFirst text value body)

/-- Replaces some elements in a text, one after the other. -/
def patch (body : Text) (found : List Match) : m Text := found.foldlM (patchOne fn part) body

/-- Replaces a part of every element that a selector takes, up to a limit. Whole elements of a
name are also replaced where they stand in values of attributes. -/
def replaceMatches (sel : Selector) (limit : Option Int) (markup : Text) :
    ExceptT Overlong m Text := do
  let found ← matchesIn markup sel limit
  let body ← (patch fn part markup found : m Text)
  match part, limit, sel.bareName? with
  | .outer, none, some name =>
      let left := leftovers name body
      if left.isEmpty then pure body
      else
        let found ← matchesIn left.flatten sel limit
        (patch fn part body found : m Text)
  | _, _, _ => pure body

end

end Stencil.Html
