import Stencil.Markdown.Block.Basic

set_option autoImplicit false

/-! # Headings and dividers

A heading is a line behind one to six hash signs, with more of them behind it if one likes, or
a line above a line of equals signs or dashes. A divider is a line of at least three dashes,
asterisks or underscores.
-/

namespace Stencil.Markdown

open Text

namespace Heading

/-- A heading of a level. -/
def node (level : Nat) (s : Text) : Node := .ofText ('h' :: decimal level) (trim s)

/-- The text of a heading without the hash signs at its end. A backslash must have a character
after it. -/
def text? : Text → Option Text
  | [] => some []
  | '\\' :: c :: s => (text? s).map fun s => char '\\' :: c :: s
  | ['\\'] => none
  | '#' :: s => if s.all (· == '#') then some [] else (text? s).map ('#' :: ·)
  | c :: s => (text? s).map (c :: ·)

/-- The level and the text of the heading on a line. -/
def line? (line : Text) : Option (Nat × Text) :=
  let level := min 6 (line.takeWhile (· == char '#')).length
  if level = 0 then none else (text? (line.drop level)).map (level, ·)

/-- A heading behind hash signs, on any line of a block. -/
def hashRule : Rule := fun read spot block blocks =>
  (firstLine? line? block).map fun (front, (level, text), rest) => do
    let nodes ←
      if front.isEmpty then pure spot.nodes else read spot.mode spot.tag spot.nodes [front]
    let rest := if spot.mode = .loose then outdent 1 rest else rest
    pure (nodes ++ [node level text], withBlock rest blocks)

/-- Whether a line underlines a heading with a sign. -/
def isUnderline (line : Text) : Bool :=
  let signs := line.takeWhile fun c => c == char '=' || c == char '-'
  !signs.isEmpty && (line.drop signs.length).all (· == ' ')

/-- A heading above a line of equals signs or dashes. -/
def underlineRule : Rule := fun _ spot block blocks =>
  match block with
  | line :: under :: rest =>
      if isUnderline under then
        let level := if under.head? == some (char '=') then 1 else 2
        some (pure (spot.nodes ++ [node level line], withBlock rest blocks))
      else none
  | _ => none

end Heading

namespace Divider

/-- Whether a line is a divider: at least three equal signs with at most two spaces between. -/
def isLine (line : Text) : Bool :=
  match afterIndent? line with
  | some (c :: s) =>
      let signs := (c :: s).filter (· == c)
      [char '-', '_', '*'].elem c && 3 ≤ signs.length &&
        (c :: s).all (fun d => d == c || d == ' ') &&
        !contains (dropEndWhile (· == ' ') (c :: s)) "   ".text
  | _ => false

/-- A divider, on any line of a block. -/
def rule : Rule := fun read spot block blocks =>
  (firstLine? (fun line => if isLine line then some () else none) block).map
    fun (front, _, rest) => do
      let front := front.trimBack
      let nodes ←
        if front.isEmpty then pure spot.nodes else read spot.mode spot.tag spot.nodes [front]
      pure (nodes ++ [.element "hr".text [] []], withBlock rest.trimFront blocks)

end Divider
end Stencil.Markdown
