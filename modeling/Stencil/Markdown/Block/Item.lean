import Stencil.Markdown.Block.Basic
import Stencil.Text.Integer

set_option autoImplicit false

/-! # Lists

An item begins with a bullet, or with a number and a full stop. The items of one block make a
tight list, which holds their bare text. An item that follows a list after an empty line joins
it, and it and the item before become paragraphs. What is indented belongs to an item: each tab
leads one list further in.
-/

namespace Stencil.Markdown

open Text

namespace Item

/-- The tag of items. -/
def tag : Text := "li".text

/-- The tags of lists of items. -/
def listTags : List Text := ["ul".text, "ol".text]

/-! ## Items of a block -/

/-- What follows at least one space at the front of a text. -/
def afterSpaces? (s : Text) : Option Text :=
  if s.head? = some (char ' ') then some (s.dropWhile (· == ' ')) else none

/-- The text behind a bullet. -/
def bulleted? (s : Text) : Option Text :=
  match s with
  | c :: r => if [char '*', '+', '-'].elem c then afterSpaces? r else none
  | [] => none

/-- The text behind a number. -/
def numbered? (s : Text) : Option Text :=
  let digits := s.takeWhile fun c => (digit? c).isSome
  if digits.isEmpty then none
  else (after? ['.'] (s.drop digits.length)).bind afterSpaces?

/-- The text of an item of either kind. -/
def text? (s : Text) : Option Text := (bulleted? s).or (numbered? s)

/-- Whether a line holds an item that is indented by one tab. -/
def isNested (line : Text) : Bool :=
  let indent := indentOf line
  tabWidth ≤ indent && indent < 2 * tabWidth && (text? (line.drop indent)).isSome

/-- The items with one more line: a new item, or a line of the last one. Items are given from
the last, and their lines too. -/
def addLine (items : List Block) (line : Text) : List Block :=
  match (afterIndent? line).bind text?, items with
  | some text, items => [text] :: items
  | none, [] => [[line]]
  | none, item :: items =>
      let isOpen := (item.getLast?.map isIndented).getD false
      if isNested line && !isOpen then [line] :: item :: items else (line :: item) :: items

/-- The items of a block. -/
def split (block : Block) : List Block := ((block.foldl addLine []).map List.reverse).reverse

/-! ## Reading items -/

/-- Reads items into a list; what is indented goes into the item before it. -/
def readAll (read : Reader) : List Block → List Node → Reading (List Node)
  | [], nodes => pure nodes
  | item :: items, nodes => do
      let isInner := (item.head?.map isIndented).getD false
      let nodes ←
        if isInner then
          match lastElement? nodes with
          | some (front, .element last attrs children, tail) => do
              let children ← read .tight last children [item]
              pure (front ++ .element last attrs children :: textNodes tail)
          | _ => pure nodes
        else do pure (nodes ++ [.element tag [] (← read .tight tag [] [item])])
      readAll read items nodes

/-- Makes the bare text of the last item of a list paragraphs. -/
def loosenLast (nodes : List Node) : List Node :=
  match lastElement? nodes with
  | some (front, .element last attrs children, tail) =>
      front ++ .element last attrs (wrapTail (wrapLead children)) :: textNodes tail
  | _ => nodes

/-- Reads items that follow a list after an empty line. -/
def readLoose (read : Reader) (items : List Block) (nodes : List Node) : Reading (List Node) := do
  let first ← read .loose tag [] (items.take 1)
  readAll read (items.drop 1) (loosenLast nodes ++ [.element tag [] first])

/-- A list with a tag, whose first item is of some kind. -/
def rule (list : Text) (first? : Text → Option Text) : Rule := fun read spot block blocks =>
  match block with
  | line :: _ =>
      ((afterIndent? line).bind first?).map fun _ => do
        let items := split block
        let follows := match lastElement? spot.nodes with
          | some (_, .element last _ _, _) => listTags.elem last
          | _ => false
        let nodes ←
          if follows then
            intoLast listTags list spot.nodes fun _ nodes => readLoose read items nodes
          else if listTags.elem spot.tag then readAll read items spot.nodes
          else do pure (spot.nodes ++ [.element list [] (← readAll read items [])])
        pure (nodes, blocks)
  | [] => none

/-- A list of items with numbers. -/
def numberedRule : Rule := rule "ol".text numbered?

/-- A list of items with bullets. -/
def bulletedRule : Rule := rule "ul".text bulleted?

/-! ## What is indented below a list -/

/-- The tags of some items and of their lists, and the tag of an item that a list lacks. -/
structure Nesting where
  items : List Text
  lists : List Text
  newItem : Text

/-- How lists of items nest. -/
def nesting : Nesting := ⟨[tag], listTags, tag⟩

/-- How far an indentation leads into lists: the number of tabs it accounts for, and the number
of elements passed. The first number bounds the elements, `level` counts tabs. -/
def Nesting.descend (nesting : Nesting) (indent : Nat) : Nat → Nat → List Node → Nat × Nat
  | 0, level, _ => (level, 0)
  | k + 1, level, nodes =>
      if indent ≤ level then (level, 0)
      else
        match lastElement? nodes with
        | some (_, .element last _ children, _) =>
            let isList := nesting.lists.elem last
            if isList || nesting.items.elem last then
              let (level, steps) :=
                nesting.descend indent k (if isList then level + 1 else level) children
              (level, steps + 1)
            else (level, 0)
        | _ => (level, 0)

/-- Reads into the element a number of steps down from some nodes, along the last elements. -/
def readBelow (read : Text → List Node → Reading (List Node)) :
    Nat → Text → List Node → Reading (List Node)
  | 0, tag, nodes => read tag nodes
  | k + 1, tag, nodes =>
      match lastElement? nodes with
      | some (front, .element last attrs children, tail) => do
          let children ← readBelow read k last children
          pure (front ++ .element last attrs children :: textNodes tail)
      | _ => read tag nodes

/-- Reads a block into a new item. -/
def Nesting.readNew (nesting : Nesting) (read : Reader) (block : Block) (nodes : List Node) :
    Reading (List Node) := do
  let children ← read .outdented nesting.newItem [] [block]
  pure (nodes ++ [.element nesting.newItem [] children])

/-- Reads an indented block into the element it was led to: into an item, or into the last item
of a list. -/
def Nesting.readInto (nesting : Nesting) (read : Reader) (block : Block) (tag : Text)
    (nodes : List Node) : Reading (List Node) := do
  if nesting.items.elem tag then read .outdented tag nodes [block]
  else
    match lastElement? nodes with
    | some (front, .element last attrs children, tail) =>
        if nesting.items.elem last then
          let children ← read .outdented last (wrapLead children) (blocksOf block)
          pure (front ++ .element last attrs children :: textNodes tail)
        else nesting.readNew read block nodes
    | _ => nesting.readNew read block nodes

/-- An indented block below a list, or in an item. -/
def Nesting.rule (nesting : Nesting) : Rule := fun read spot block blocks =>
  let inItem := nesting.items.elem spot.tag
  let belowList := match lastElement? spot.nodes with
    | some (_, .element last _ _, _) => nesting.lists.elem last
    | _ => false
  match block with
  | line :: _ =>
      if isIndented line && spot.mode ≠ .outdented && (inItem || belowList) then
        some do
          let indent := indentOf line / tabWidth
          let level := if spot.mode = .tight then 1 else 0
          let (level, steps) := nesting.descend indent (2 * indent + 2) level spot.nodes
          let block := outdent level block
          let nodes ←
            if inItem then
              readBelow (fun tag nodes => read .outdented tag nodes [block])
                (if belowList then 1 else 0) spot.tag spot.nodes
            else readBelow (nesting.readInto read block) steps spot.tag spot.nodes
          pure (nodes, blocks)
      else none
  | [] => none

end Item
end Stencil.Markdown
