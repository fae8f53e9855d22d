import Stencil.Markdown.Source

set_option autoImplicit false

/-! # Reading spans

A pattern reads one kind of span at a place in a text. The patterns are applied one after
another: each replaces what it finds by a mark until it finds nothing more, and looks again from
the beginning each time. The texts inside a span are read with the patterns that come later,
and texts between the parts of a span with the same one too.
-/

namespace Stencil.Markdown

open Text

/-- What a pattern finds at a place: a span, or something that is left as it is, and the number
of characters it takes. -/
structure Found where
  node : Option Node
  length : Nat

/-- Reads at a place in a text, given the character before the place and the text after it. -/
abbrev Pattern := Option CodePoint → Text → Reading (Option Found)

namespace Pattern

/-- What was found in front of a rest. -/
def found (node : Node) (s rest : Text) : Option Found := some ⟨some node, s.length - rest.length⟩

/-- The first span that a pattern finds: the text before it, the span, and the text after it.
`front` is the text before the place in reverse, and the number counts characters that are
still to be passed over. -/
def first? (pattern : Pattern) (front : Text) : Nat → Text → Reading (Option (Text × Node × Text))
  | _, [] => pure none
  | k + 1, c :: s => first? pattern (c :: front) k s
  | 0, c :: s => do
      match ← pattern front.head? (c :: s) with
      | some ⟨some node, length⟩ => pure (some (front.reverse, node, (c :: s).drop length))
      | some ⟨none, length⟩ => first? pattern (c :: front) (length - 1) s
      | none => first? pattern (c :: front) 0 s

/-- A text with a mark for each span that patterns find. The number bounds the spans and the
patterns. -/
def readAll : Nat → List Pattern → Text → Reading Text
  | 0, _, s => pure s
  | _, [], s => pure s
  | k + 1, pattern :: later, s => do
      match ← pattern.first? [] 0 s with
      | none => readAll k later s
      | some (front, node, rest) =>
          let inside (patterns : List Pattern) (s : Text) : Reading (List Node) := do
            let s ← readAll k patterns s
            pure ((← get).resolve s)
          let node ← node.mapTexts (inside later) (inside (pattern :: later))
          let mark ← store node
          readAll k (pattern :: later) (front ++ mark ++ rest)

/-- The nodes of a text whose spans are read with some patterns. -/
def readText (patterns : List Pattern) (s : Text) : Reading (List Node) := do
  let s ← readAll (8 * (s.length + patterns.length + 1)) patterns s
  pure ((← get).resolve s)

end Pattern

/-! ## Lazy splits -/

/-- The first way to split a text in two that a reader takes; it gets the front in reverse. -/
def firstSplit? {α : Type} (reader : Text → Text → Option α) (front : Text) : Text → Option α
  | [] => reader front []
  | c :: s =>
      match reader front (c :: s) with
      | some found => some found
      | none => firstSplit? reader (c :: front) s

end Stencil.Markdown
