import Stencil.Markdown.Line

set_option autoImplicit false

/-! # Reading blocks

Blocks are read one after another into the element they stand in. A rule looks at the first
block: either it is not its kind, or the rule adds to the element and says which blocks are
left. What is nested in a block is read by the same rules.
-/

namespace Stencil.Markdown

open Text

/-- In what kind of place a block stands: at the top, in a block that lost its indentation, in
a list whose items hold bare text, in a list whose items hold paragraphs, or in a quotation. -/
inductive Mode where
  | top
  | outdented
  | tight
  | loose
  | quote
  deriving DecidableEq, Repr

/-- Where a block stands: the mode, and the tag and the children so far of its element. -/
structure Spot where
  mode : Mode
  tag : Text
  nodes : List Node

/-- Reads blocks into an element with a tag and some children, and gives all its children. -/
abbrev Reader := Mode → Text → List Node → List Block → Reading (List Node)

/-- What a rule does: the children of the element, and the blocks that are left. -/
abbrev Outcome := Reading (List Node × List Block)

/-- A rule: given how nested blocks are read, the place, the first block and the others, it
does something or does not apply. -/
abbrev Rule := Reader → Spot → Block → List Block → Option Outcome

/-- The blocks with some lines in front, unless there is no line. -/
def withBlock (block : Block) (blocks : List Block) : List Block :=
  if block.isEmpty then blocks else block :: blocks

/-- The blocks with some lines in front, unless they are blank. -/
def withFilled (block : Block) (blocks : List Block) : List Block :=
  if block.isBlank then blocks else block :: blocks

/-! ## Leads and tails -/

/-- The children of an element with its lead made a paragraph. -/
def wrapLead (nodes : List Node) : List Node :=
  let (lead, others) := splitLead nodes
  if lead.isEmpty then others else .ofText ['p'] lead :: others

/-- The children of an element with its last tail made a paragraph. -/
def wrapTail (nodes : List Node) : List Node :=
  match lastElement? nodes with
  | some (front, node, tail) =>
      if tail.isEmpty then nodes else front ++ [node, .ofText ['p'] (trimLeft tail)]
  | none => nodes

/-- The children of an element with more bare text at the end, on a line of its own. -/
def appendBare (s : Text) (nodes : List Node) : List Node :=
  match lastElement? nodes with
  | some (front, node, tail) => front ++ [node, .text (tail ++ [char '\n'] ++ s)]
  | none =>
      let lead := (splitLead nodes).1
      textNodes (if lead.isEmpty then trimLeft s else lead ++ [char '\n'] ++ trimLeft s)

/-- Reads into the last element of some nodes, if it has one of some tags, or else into a new
element with a tag. -/
def intoLast (tags : List Text) (tag : Text) (nodes : List Node)
    (read : Text → List Node → Reading (List Node)) : Reading (List Node) :=
  let anew : Reading (List Node) := do
    pure (nodes ++ [.element tag [] (← read tag [])])
  match lastElement? nodes with
  | some (front, .element last attrs children, tail) =>
      if tags.elem last then do
        pure (front ++ .element last attrs (← read last children) :: textNodes tail)
      else anew
  | _ => anew

/-! ## Paragraphs -/

/-- What no other rule applies to is a paragraph, or bare text in a tight list. -/
def paragraph : Rule := fun _ spot block blocks =>
  some <|
    if block.isBlank then pure (spot.nodes, blocks)
    else if spot.mode = .tight then pure (appendBare block.text spot.nodes, blocks)
    else pure (spot.nodes ++ [.ofText ['p'] (trimLeft block.text)], blocks)

end Stencil.Markdown
