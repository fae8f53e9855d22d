import Stencil.Css.Parser
import Stencil.Vocabulary

set_option autoImplicit false

/-! # Confined rules

A rule is confined to a fragment by a marker in its selectors. A loose marker is asked of an
ancestor, `[data-…-X] .a`; a strict one of the element itself, in front of the first pseudo
class or pseudo element, `.a[data-…-X]:hover`.
-/

namespace Stencil

open Text

/-- How far a rule reaches: the content of nested fragments too, or the fragment alone. -/
inductive ScopeKind where
  | loose
  | strict
  deriving DecidableEq, Repr

namespace ScopeKind

/-- Cuts a selector in front of its first colon outside quotes and brackets. `quote` is the
quote that is open and `depth` counts opening less closing marks. -/
def cutPseudo (quote : Option CodePoint) (depth : Int) : Text → Text × Text
  | [] => ([], [])
  | c :: s =>
      let keep (found : Text × Text) : Text × Text := (c :: found.1, found.2)
      match quote with
      | some q => keep (cutPseudo (if c = q then none else some q) depth s)
      | none =>
          if c = '"' || c = '\'' then keep (cutPseudo (some c) depth s)
          else if c = '[' || c = '(' then keep (cutPseudo none (depth + 1) s)
          else if c = ']' || c = ')' then keep (cutPseudo none (depth - 1) s)
          else if c = ':' && depth == 0 then ([], c :: s)
          else keep (cutPseudo none depth s)

/-- A selector confined by a marker. -/
def confine (kind : ScopeKind) (marker selector : Text) : Text :=
  match kind with
  | .loose => [char '['] ++ Vocabulary.looseAttr marker ++ [char ']', char ' '] ++ selector
  | .strict =>
      let (front, pseudo) := cutPseudo none 0 selector
      front ++ [char '['] ++ Vocabulary.strictAttr marker ++ [char ']'] ++ pseudo

/-- A selector of a rule, confined unless it holds the word that exempts it. -/
def confineOrExempt (kind : ScopeKind) (marker selector : Text) : Text :=
  if contains selector Vocabulary.exemptWord then
    trim (replaceAll Vocabulary.exemptWord [] selector)
  else confine kind marker selector

/-- An item of a style sheet with its selectors confined. -/
def confineItem (kind : ScopeKind) (marker : Text) : Css.Item → Css.Item
  | .rule selectors declarations =>
      .rule (selectors.map (confineOrExempt kind marker)) declarations
  | .raw source => .raw source

/-- The text of a style sheet with all its rules confined by a marker. -/
def confineSheet (kind : ScopeKind) (marker css : Text) : Except Css.Fault Text :=
  (Css.Stylesheet.parse css).map fun sheet =>
    Css.Stylesheet.render (sheet.map (confineItem kind marker))

end ScopeKind
end Stencil
