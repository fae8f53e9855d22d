import Stencil.Html.Edit
import Stencil.Html.Patch
import Stencil.Vocabulary

set_option autoImplicit false

/-! # Wrappers

While imports are expanded, each fragment stands in one enclosing element that can carry its
markers: its own root element, or an element put around it. Afterwards `Wrapper.clear` takes
the wrappers out again; those with attributes of their own keep their tags.
-/

namespace Stencil

open Text Html

namespace Wrapper

/-- Whether a node is a text that holds nothing but blanks. -/
def isBlankNode : Node → Bool
  | .text _ s => isBlankText s
  | .element _ _ => false

/-- Whether a node is an element with the attribute of a wrapper. -/
def isWrapper : Node → Bool
  | .text _ _ => false
  | .element tag _ => tag.attrs.has Vocabulary.wrapperAttr

/-- Whether markup is one wrapper, with nothing but blanks around it. -/
def encloses (markup : Text) : Except ReadError Bool :=
  if !markup.elem (char '<') then .ok false
  else
    (Node.ofSource markup).map fun nodes =>
      match nodes.filter (!isBlankNode ·) with
      | [node] => isWrapper node
      | _ => false

/-- Markup inside a new wrapper. -/
def around (markup : Text) : Text :=
  startTagText "div".text [(Vocabulary.wrapperAttr, [])] ++ markup ++
    endTagText "div".text

/-- What stands for a wrapper in the end: its content, within its tags when it has attributes
of its own. -/
def unwrap (m : Match) : Text :=
  let attrs := m.tag.attrs.erase Vocabulary.wrapperAttr
  if attrs.isEmpty then m.inner else startTagText m.tag.name attrs ++ m.inner ++ m.close

/-- Takes all wrappers out of markup. -/
def clear (markup : Text) : Except Overlong Text :=
  Id.run (replaceMatches (fun m => pure (unwrap m)) .outer (.ofAttr Vocabulary.wrapperAttr) none
    (expandSelfClosing markup)).run

end Wrapper
end Stencil
