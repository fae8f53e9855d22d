import Stencil.Html.Attributes
import Stencil.Html.Source

set_option autoImplicit false

/-! # Trees

The tree of a source. Only end tags close elements: an end tag closes everything up to the
nearest open element of its name, and is ignored when there is none. Elements without content,
such as `br`, are closed at once.

`Builder` takes tokens one by one, `Node.ofSource` gives the nodes at the top of a source, and
`elementsOf` lists the elements of a tree in the order of their start tags.
-/

namespace Stencil.Html

open Text

/-- The name and the attributes of an element, with the position of its start tag. -/
structure Tag where
  name : Text
  attrs : Attributes
  position : Position
  deriving DecidableEq, Repr

/-- A piece of text or an element with its content. -/
inductive Node where
  | text (kind : TextKind) (content : Text)
  | element (tag : Tag) (children : List Node)

/-- An element with its content. -/
structure Element where
  tag : Tag
  children : List Node

/-- The elements that never have content. -/
def emptyNames : List Text :=
  ["area", "base", "br", "col", "embed", "hr", "img", "input", "keygen", "link", "menuitem",
    "meta", "param", "source", "track", "wbr", "basefont", "bgsound", "command", "frame",
    "image", "isindex", "nextid", "spacer"].map String.text

/-- The elements in which blank text is kept as it is. -/
def preservingNames : List Text := ["pre", "textarea"].map String.text

/-- Whether a character is a blank that a document may be indented with. -/
def isIndent (c : CodePoint) : Bool := [char ' ', '\n', '\t', '\x0c', '\r'].elem c

/-- A text as a document holds it: nothing but indentation counts as a line break or as one
space. -/
def normalizeBlank (s : Text) : Text :=
  if s.all isIndent then if s.elem (char '\n') then [char '\n'] else [char ' '] else s

/-! ## Building a tree -/

/-- An open element, with its content so far, the latest first. -/
structure Frame where
  tag : Tag
  children : List Node

/-- A tree under construction. -/
structure Builder where
  /-- The open elements, the innermost first. -/
  opened : List Frame
  /-- The finished nodes at the top, the latest first. -/
  top : List Node
  /-- Running text that no node holds yet. -/
  pending : Option Text
  /-- The names of elements that were closed at once; one later end tag of each is ignored. -/
  redundant : List Text

namespace Builder

/-- No node at all. -/
def empty : Builder := ⟨[], [], none, []⟩

/-- Puts a node at the end of the innermost open element. -/
def add (node : Node) (b : Builder) : Builder :=
  match b.opened with
  | [] => { b with top := node :: b.top }
  | frame :: frames =>
      { b with opened := { frame with children := node :: frame.children } :: frames }

/-- Appends running text. -/
def append (s : Text) (b : Builder) : Builder := { b with pending := some (b.pending.getD [] ++ s) }

/-- Makes a node of the running text. -/
def flush (kind : TextKind) (b : Builder) : Builder :=
  match b.pending with
  | none => b
  | some s =>
      let kept := b.opened.any fun frame => preservingNames.elem frame.tag.name
      { b with pending := none }.add (.text kind (if kept then s else normalizeBlank s))

/-- Closes the innermost open element. -/
def pop (b : Builder) : Builder :=
  match b.opened with
  | [] => b
  | frame :: frames =>
      { b with opened := frames }.add (.element frame.tag frame.children.reverse)

/-- Closes everything up to the nearest open element of a name, if there is one. -/
def closeTo (name : Text) (b : Builder) : Builder :=
  match b.opened.findIdx? (·.tag.name = name) with
  | none => b
  | some depth => Nat.repeat pop (depth + 1) b

/-- Takes an end tag. -/
def close (name : Text) (b : Builder) : Builder := (b.flush .plain).closeTo name

/-- Takes an end tag, unless it belongs to an element that was closed at once. -/
def closeUnlessRedundant (name : Text) (b : Builder) : Builder :=
  if b.redundant.elem name then { b with redundant := b.redundant.erase name } else b.close name

/-- Opens an element. -/
def start (tag : Tag) (b : Builder) : Builder :=
  let b := b.flush .plain
  { b with opened := ⟨tag, []⟩ :: b.opened }

/-- Takes a token. -/
def take (b : Builder) : Token → Builder
  | .text .plain s => if s.isEmpty then b else b.append s
  | .text kind s => ((b.flush .plain).append s).flush kind
  | .close name => b.closeUnlessRedundant name
  | .start position tag =>
      let b := b.start ⟨tag.name, Table.ofPairs tag.attrs, position⟩
      if tag.selfClosing then b.closeUnlessRedundant tag.name
      else if emptyNames.elem tag.name then
        let b := b.close tag.name
        { b with redundant := tag.name :: b.redundant }
      else b

/-- The finished nodes, after closing every open element. -/
def finish (b : Builder) : List Node :=
  let b := b.flush .plain
  (Nat.repeat pop b.opened.length b).top.reverse

end Builder

/-- The nodes at the top of the tree of a source. -/
def Node.ofSource (source : Text) : Except ReadError (List Node) :=
  (tokens source).map fun ts => (ts.foldl Builder.take .empty).finish

/-! ## Elements -/

mutual

/-- The elements of a node in the order of their start tags. -/
def Node.elements : Node → List Element
  | .text _ _ => []
  | .element tag children => ⟨tag, children⟩ :: elementsOf children

/-- The elements of some nodes in the order of their start tags. -/
def elementsOf : List Node → List Element
  | [] => []
  | node :: nodes => node.elements ++ elementsOf nodes

end

end Stencil.Html
