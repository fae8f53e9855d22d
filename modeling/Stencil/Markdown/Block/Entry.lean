import Stencil.Markdown.Block.Basic
import Stencil.Text.Case

set_option autoImplicit false

/-! # Entries

A block may hold entries that do not show where they stand: the text of a footnote, the title of
an abbreviation, the target of a reference.
-/

namespace Stencil.Markdown

open Text

namespace Entry

/-- The text of a name in brackets, from the text after the opening bracket, with what follows
the closing one. -/
def closeName? (s : Text) : Option (Text × Text) := cut? [']'] s

/-- A text without the spaces at its front. -/
def skipSpaces (s : Text) : Text := s.dropWhile (· == ' ')

/-! ## Footnotes -/

/-- The name of a footnote and the text after it, on the line that begins the footnote. -/
def footnote? (line : Text) : Option (Text × Text) := do
  let r ← after? ['[', '^'] (← afterIndent? line)
  let (name, rest) ← closeName? r
  some (name, skipSpaces (← after? [':'] rest))

/-- The indented blocks that go on a footnote, and the other blocks. A new footnote in a block
ends the footnote. -/
def indentedBlocks : List Block → List Block × List Block
  | [] => ([], [])
  | block :: blocks =>
      if (block.head?.map isIndented).getD false then
        match firstLine? (fun line => (footnote? line).map fun _ => line) block with
        | some (front, line, rest) => ([outdent 1 front.trimBack], (line :: rest) :: blocks)
        | none =>
            let (own, others) := indentedBlocks blocks
            (outdent 1 block :: own, others)
      else ([], block :: blocks)

/-- Enters the text of a footnote. -/
def addFootnote (name s : Text) : Reading Unit :=
  modify fun desk => { desk with footnotes := Table.set name (trimRight s) desk.footnotes }

/-- The text of a footnote that begins somewhere in a block. -/
def footnoteRule : Rule := fun _ spot block blocks =>
  (firstLine? footnote? block).map fun (front, (name, first), rest) => do
    let rest := rest.trimFront
    let next := firstLine? (fun line => (footnote? line).map fun _ => line) rest
    let blocks ← match next with
      | some (own, line, others) => do
          addFootnote name (join ['\n'] ((first :: outdent 1 own.trimBack).dropWhile (·.isEmpty)))
          pure ((line :: others) :: blocks)
      | none => do
          let (more, blocks) := indentedBlocks blocks
          let own := (Block.trimBack (Block.trimFront (first :: outdent 1 rest))) :: more
          addFootnote name (join ['\n', '\n'] (own.map Block.text))
          pure blocks
    pure (spot.nodes, withFilled front.trimBack blocks)

/-! ## Entries of some other lines -/

/-- The first line in a block from which a reader reads an entry that may go on over more
lines: the lines before it, what was read, and the lines after it. -/
def firstPlace? {α : Type} (reader : Block → Option (α × Block)) :
    Block → Option (Block × α × Block)
  | [] => none
  | line :: lines =>
      match reader (line :: lines) with
      | some (found, rest) => some ([], found, rest)
      | none =>
          (firstPlace? reader lines).map fun (front, found, rest) => (line :: front, found, rest)

/-- A rule for entries: makes the entry and leaves the lines before and after it. -/
def ruleOf {α : Type} (reader : Block → Option (α × Block)) (add : α → Desk → Desk) : Rule :=
  fun _ spot block blocks =>
    (firstPlace? reader block).map fun (front, found, rest) => do
      modify (add found)
      pure (spot.nodes, withFilled front.trimBack (withFilled rest.trimFront blocks))

/-- What follows a colon: on the same line, or else on the next one; and the lines below. -/
def afterColon (s : Text) (lines : Block) : Text × Block :=
  match skipSpaces s, lines with
  | [], line :: lines => (skipSpaces line, lines)
  | s, lines => (s, lines)

/-! ## Abbreviations -/

/-- An abbreviation and its title at the front of a block. -/
def abbreviation? (block : Block) : Option ((Text × Text) × Block) := do
  let r ← after? ['*', '['] (block.headD [])
  let close (t : Text) : Option Text := do
    let t ← after? [']'] t
    after? [':'] ((after? [' '] t).getD t)
  let (name, _, s) ← cutAt? close r
  let (title, rest) := afterColon s (block.drop 1)
  if name.elem (char '\\') || isBlankText name || isBlankText title then none
  else some ((trim name, trim title), rest)

/-- Enters the title of an abbreviation; an empty title in quotes removes it. -/
def addAbbreviation (entry : Text × Text) (desk : Desk) : Desk :=
  let (name, title) := entry
  if title = [char '\'', char '\''] || title = [char '"', char '"'] then
    { desk with abbreviations := desk.abbreviations.erase name }
  else { desk with abbreviations := Table.set name title desk.abbreviations }

/-- The title of an abbreviation. -/
def abbreviationRule : Rule := ruleOf abbreviation? addAbbreviation

/-! ## References -/

/-- The title that fills a line, in quotes or parentheses. -/
def title? (line : Text) : Option Text :=
  match line, (dropEndWhile (· == ' ') line).reverse with
  | q :: _, e :: _ =>
      let inside := ((dropEndWhile (· == ' ') line).drop 1).dropLast
      if 2 ≤ (dropEndWhile (· == ' ') line).length &&
          ((isQuote q && e = q) || (q = '(' && e = ')')) then some inside
      else none
  | _, _ => none
where
  /-- Whether a character is a quote. -/
  isQuote (c : CodePoint) : Bool := c = '"' || c = '\''

/-- The title of a reference, from what follows its target, and the lines after it: on the next
line, on the same line, or none. -/
def titleAfter? (s : Text) (lines : Block) : Option (Text × Block) :=
  let here := skipSpaces s
  let below : Option (Text × Block) :=
    match here, lines with
    | [], line :: rest => (title? (skipSpaces line)).map (·, rest)
    | _, _ => none
  below.or <| ((title? here).map (·, lines)).or <| if here.isEmpty then some ([], lines) else none

/-- The target of a reference and its title, where the target takes a number of characters or
fewer. -/
def target? (s : Text) (lines : Block) : Nat → Option ((Text × Text) × Block)
  | 0 => none
  | k + 1 =>
      match titleAfter? (s.drop (k + 1)) lines with
      | some (title, rest) => some ((s.take (k + 1), title), rest)
      | none => target? s lines k

/-- The name, the target and the title of a reference at the front of a block. -/
def reference? (block : Block) : Option ((Text × Text × Text) × Block) := do
  let r ← after? ['['] (← afterIndent? (block.headD []))
  let (name, s) ← closeName? r
  if name.elem (char '[') then none
  else
    let (s, lines) := afterColon (← after? [':'] s) (block.drop 1)
    let ((target, title), rest) ← target? s lines (s.takeWhile (!isBlank ·)).length
    let target := dropEndWhile (· == '>') (target.dropWhile (· == '<'))
    some ((lower (trim name), target, title), rest)

/-- The target of a reference. -/
def referenceRule : Rule :=
  ruleOf reference? fun (name, target, title) desk =>
    let title := if title.isEmpty then none else some title
    { desk with references := (name, target, title) :: desk.references }

end Entry
end Stencil.Markdown
