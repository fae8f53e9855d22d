import Stencil.Markdown.Node
import Stencil.Text.Word

set_option autoImplicit false

/-! # Abbreviations

An abbreviation that has a title is marked wherever it stands as a whole word. Where two begin
at one place, the longer one counts.
-/

namespace Stencil.Markdown

open Text

namespace Abbreviation

/-- Whether a word begins or ends between two characters. -/
def isEdge (before after : Option CodePoint) : Bool :=
  (before.map isWord).getD false != (after.map isWord).getD false

/-- The abbreviation at a place, with its title. -/
def at? (titles : Table) (before : Option CodePoint) (s : Text) : Option (Text × Text) :=
  if !isEdge before s.head? then none
  else
    titles.find? fun (name, _) =>
      match after? name s with
      | some rest => isEdge (name.getLast?.or before) rest.head?
      | none => false

/-- The element of an abbreviation. -/
def node (name title : Text) : Node :=
  .element "abbr".text [("title".text, title)] [.text name]

/-- The nodes of a text with its abbreviations marked. The text so far comes in reverse, and the
number counts the characters of the last abbreviation that are still to be passed over. -/
def markFrom (titles : Table) (pending : Text) (before : Option CodePoint) : Nat → Text → List Node
  | _, [] => textNodes pending.reverse
  | k + 1, c :: s => markFrom titles pending (some c) k s
  | 0, c :: s =>
      match at? titles before (c :: s) with
      | some (name, title) =>
          textNodes pending.reverse ++
            node name title :: markFrom titles [] (some c) (name.length - 1) s
      | none => markFrom titles (c :: pending) (some c) 0 s

/-- Some nodes with the abbreviations in their texts marked. -/
def mark (titles : Table) (nodes : List Node) : List Node :=
  let sorted := titles.mergeSort fun a b => b.1.length ≤ a.1.length
  let ofText (s : Text) : Id (List Node) := markFrom sorted [] none 0 s
  if titles.isEmpty then nodes else Id.run (mapTextsOf ofText ofText ofText nodes)

end Abbreviation
end Stencil.Markdown
