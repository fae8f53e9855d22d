import Stencil.Html.Patch
import Stencil.Text.Blank
import Stencil.Vocabulary

set_option autoImplicit false

/-! # Slots

The content of an import fills the slots of the fragment: each template inside it fills the
slot of its name, and what is left fills the default slot.
-/

namespace Stencil

open Text Html

/-- Texts under the names of the slots they fill. -/
abbrev Slots := Table

namespace Slots

/-- Slots with nothing in them. -/
def none : Slots := [(Vocabulary.defaultSlot, [])]

/-- Takes a template into account: it leaves the default slot, unless it is for that slot, and
fills the slot of its name. -/
def addTemplate (slots : Slots) (m : Match) : Slots :=
  let name := (m.attr? "name".text).getD []
  let slots :=
    if name = Vocabulary.defaultSlot then slots
    else
      let left := replaceFirst m.outer [] ((slots.get? Vocabulary.defaultSlot).getD [])
      Table.set Vocabulary.defaultSlot left slots
  Table.set name (trim m.inner) slots

/-- The slots that the content of an import fills. -/
def ofContent (markup : Text) : Except Overlong Slots := do
  let templates ← matchesIn markup (.ofName Vocabulary.templateTag) .none
  let slots := templates.foldl addTemplate [(Vocabulary.defaultSlot, trim markup)]
  pure (Table.set Vocabulary.defaultSlot (trim ((slots.get? Vocabulary.defaultSlot).getD [])) slots)

/-- What stands in the place of a slot: the text given for its name, or else its own content. -/
def fill (slots : Slots) (m : Match) : Text :=
  let name := (m.tag.attrs.filled? "name".text).getD Vocabulary.defaultSlot
  (slots.filled? name).getD m.inner

/-- Fills the slots in markup. -/
def fillAll (slots : Slots) (markup : Text) : Except Overlong Text :=
  Id.run (replaceMatches (fun m => pure (fill slots m)) .outer (.ofName Vocabulary.slotTag) .none
    markup).run

end Slots
end Stencil
