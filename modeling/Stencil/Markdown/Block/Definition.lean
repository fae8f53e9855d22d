import Stencil.Markdown.Block.Item

set_option autoImplicit false

/-! # Definition lists

A line that begins with a colon defines the terms on the lines above it; the terms may also be
the paragraph before. What is indented below belongs to the definition.
-/

namespace Stencil.Markdown

open Text

namespace Definition

/-- The tag of definition lists. -/
def listTag : Text := "dl".text

/-- The tag of definitions. -/
def tag : Text := "dd".text

/-- The text behind a colon and up to three spaces. -/
def text? (line : Text) : Option Text := do
  let r ← after? [':'] (← afterIndent? line)
  let spaces := min 3 (indentOf r)
  if spaces = 0 then none else some (r.drop spaces)

/-- Whether lines go on a definition without being indented. -/
def continues (lines : Block) : Bool :=
  match lines with
  | line :: _ =>
      match afterIndent? line with
      | some (c :: _) => c != ':'
      | _ => false
  | [] => false

/-- How items and definitions nest. -/
def nesting : Item.Nesting := ⟨[tag, Item.tag], [listTag] ++ Item.listTags, tag⟩

/-- Whether a list ends with a definition that holds elements. -/
def endsFilled (children : List Node) : Bool :=
  match lastElement? children with
  | some (_, .element last _ inner, _) => last = tag && inner.any Node.isElement
  | _ => false

/-- The terms in the last paragraph of some nodes, and the nodes before it. -/
def termsBefore? (nodes : List Node) : Option (List Node × List Text) :=
  match lastElement? nodes with
  | some (front, .element last _ children, _) =>
      if last = [char 'p'] then some (front, splitOn '\n' (splitLead children).1) else none
  | _ => none

/-- A definition, from some line of a block on. -/
def rule : Rule := fun read spot block blocks =>
  (firstLine? text? block).bind fun (front, first, rest) =>
    let terms := (front.filter (!isBlankText ·)).map trim
    let (own, left) := if continues rest then (rest, []) else outdentFront rest
    let below := if terms.isEmpty then termsBefore? spot.nodes else none
    let (nodes, terms, loose) :=
      match below with
      | some (nodes, terms) => (nodes, terms, true)
      | none => (spot.nodes, terms, false)
    if terms.isEmpty && (lastElement? nodes).isNone then none
    else some do
      let nodes ← intoLast [listTag] listTag nodes fun _ children => do
        let loose := loose || (terms.isEmpty && endsFilled children)
        let block := if own.text.isEmpty then [first] else first :: own
        let inner ← read (if loose then .loose else .tight) tag [] [block]
        pure (children ++ terms.map (.ofText "dt".text) ++ [.element tag [] inner])
      pure (nodes, withBlock left blocks)

end Definition
end Stencil.Markdown
