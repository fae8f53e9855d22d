import Stencil.Markdown.Block.Code
import Stencil.Markdown.Block.Definition
import Stencil.Markdown.Block.Entry
import Stencil.Markdown.Block.Grid
import Stencil.Markdown.Block.Heading
import Stencil.Markdown.Block.Quote

set_option autoImplicit false

/-! # Reading the blocks of a document

The rules in the order in which they are tried, and the reader that tries them.
-/

namespace Stencil.Markdown

open Text

/-- The rules for blocks; the first one that applies is taken. -/
def rules : List Rule :=
  [Code.gap, Item.nesting.rule, Definition.nesting.rule, Code.rule, Grid.rule, Heading.hashRule,
    Heading.underlineRule, Divider.rule, Item.numberedRule, Item.bulletedRule, Definition.rule,
    Quote.rule, Entry.footnoteRule, Entry.abbreviationRule, Entry.referenceRule, paragraph]

/-- What the first rule that applies does. -/
def applyRules (read : Reader) (spot : Spot) (block : Block) (blocks : List Block) : Outcome :=
  ((rules.findSome? fun rule => rule read spot block blocks)).getD (pure (spot.nodes, blocks))

/-- Reads blocks into an element; the number bounds the rules that are applied one after or
inside another. -/
def readBlocks : Nat → Reader
  | 0, _, _, nodes, _ => pure nodes
  | _, _, _, nodes, [] => pure nodes
  | k + 1, mode, tag, nodes, block :: blocks => do
      let (nodes, blocks) ← applyRules (readBlocks k) ⟨mode, tag, nodes⟩ block blocks
      readBlocks k mode tag nodes blocks

/-- A bound for the rules that are applied to a text of some length: every rule takes a
character away, an indentation, or a line. -/
def ruleBound (lines : List Text) : Nat :=
  4 * lines.foldl (fun n line => n + line.length + 1) 0 + 16

/-- Reads lines into a new element, and gives its children. -/
def readLines (tag : Text) (lines : List Text) : Reading (List Node) :=
  readBlocks (ruleBound lines) .top tag [] (blocksOf lines)

end Stencil.Markdown
