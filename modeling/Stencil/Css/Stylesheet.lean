import Stencil.Text.Integer
import Stencil.Text.Quoted

set_option autoImplicit false

/-! # Style sheets

A style sheet as a list of rules, and of comments and at-rules that are kept as they are
written. `Stylesheet.render` writes it in one canonical form. `Fault` names what can be wrong
with the text of a style sheet.
-/

namespace Stencil.Css

open Text

/-- A rule with its selectors and declarations, or a text that is written back unchanged. -/
inductive Item where
  | rule (selectors declarations : List Text)
  | raw (source : Text)
  deriving DecidableEq, Repr

/-- The items of a style sheet in order. -/
abbrev Stylesheet := List Item

/-- The text of an item: a rule has one selector and one declaration a line. -/
def Item.render : Item → Text
  | .rule selectors declarations =>
      join ",\n".text selectors ++ " \x7b".text ++
        declarations.flatMap (fun d => "\n  ".text ++ d ++ [char ';']) ++ "\n\x7d".text
  | .raw source => source

/-- The text of a style sheet, with an empty line between items. -/
def Stylesheet.render (sheet : Stylesheet) : Text := join "\n\n".text (sheet.map Item.render)

/-! ## Faults -/

/-- What is wrong with the text of a style sheet; most faults have an index. -/
inductive Fault where
  | unclosedString (index : Nat)
  | unclosedComment (index : Nat)
  | strayBrace (index : Nat)
  | unclosedBlock (index : Nat)
  | unclosedAtRule (index : Nat)
  | missingBlock (source : Text)
  | missingSelector (index : Nat)
  deriving DecidableEq, Repr

/-- A fault in words. -/
def Fault.message : Fault → Text
  | .unclosedString index => "Unterminated string at ".text ++ decimal index
  | .unclosedComment index => "Unterminated comment at ".text ++ decimal index
  | .strayBrace index => "Unexpected '\x7d' at ".text ++ decimal index
  | .unclosedBlock index => "Unclosed block at ".text ++ decimal index
  | .unclosedAtRule index => "Unterminated at-rule at ".text ++ decimal index
  | .missingBlock source => "Missing '\x7b' after ".text ++ quoted (source.take 40)
  | .missingSelector index => "Missing selector at ".text ++ decimal index

end Stencil.Css
