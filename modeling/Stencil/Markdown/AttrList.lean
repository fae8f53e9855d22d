import Stencil.Markdown.Node

set_option autoImplicit false

/-! # Attribute lists

A list of attributes in braces, such as `\x7b#top .wide lang=en\x7d`, gives attributes to the
element it stands in or after.
-/

namespace Stencil.Markdown.AttrList

open Text

/-- An item of a list: a class, or an attribute with its value. -/
inductive Item where
  | class_ (name : Text)
  | attr (name value : Text)
  deriving DecidableEq, Repr

/-- Whether a character may stand in a word of a list. -/
def isWordChar (c : CodePoint) : Bool := !([char ' ', '=', '\x7d'].elem c)

/-- A word without a value: a class, an identifier, or an attribute that is its own value. -/
def ofWord : Text → Item
  | '.' :: name => .class_ name
  | '#' :: name => .attr "id".text name
  | word => .attr word word

/-- The item at the front of a list and the rest. -/
def readItem? (s : Text) : Option (Item × Text) :=
  let name := s.takeWhile isWordChar
  let rest := s.dropWhile isWordChar
  if name.isEmpty then none
  else
    match rest with
    | '=' :: r =>
        let inQuotes : Option (Item × Text) :=
          match r with
          | q :: t =>
              if q = '"' || q = '\'' then
                (cut? [q] t).map fun (value, rest) => (.attr name (stripChar q value), rest)
              else none
          | [] => none
        match inQuotes with
        | some found => some found
        | none =>
            let value := r.takeWhile isWordChar
            if value.isEmpty then some (ofWord name, rest)
            else some (.attr name value, r.dropWhile isWordChar)
    | _ => some (ofWord name, rest)

/-- The items of a list and what is left from the first closing brace on. The number bounds the
items. -/
def readItems : Nat → Text → List Item × Text
  | 0, s => ([], s)
  | k + 1, s =>
      match s with
      | ' ' :: r => readItems k r
      | _ =>
          match readItem? s with
          | some (item, rest) =>
              let (items, left) := readItems k rest
              (item :: items, left)
          | none => ([], s.dropWhile (· != '\x7d'))

/-- The items of a list and what is left from the first closing brace on. -/
def parse (s : Text) : List Item × Text := readItems (s.length + 1) s

/-- Whether a character may stand in the name of an attribute. -/
def isNameChar (c : CodePoint) : Bool :=
  c.isAlphanum || [char '_', ':', '-', '.'].elem c || 0xB7 ≤ c.toNat

/-- A name with an underscore in the place of each run of characters that names do not have;
`marked` says that the underscore for the current run is written. -/
def cleanName (marked : Bool) : Text → Text
  | [] => []
  | c :: s =>
      if isNameChar c then c :: cleanName false s
      else if marked then cleanName true s
      else char '_' :: cleanName true s

/-- Gives an item to an element. -/
def assign (attrs : Table) : Item → Table
  | .class_ name =>
      match attrs.filled? "class".text with
      | some old => Table.set "class".text (old ++ [char ' '] ++ name) attrs
      | none => Table.set "class".text name attrs
  | .attr name value =>
      Table.set (cleanName false name) value attrs

/-- The content of a list at the front of a text, up to the last brace of the line, and the
text after it. -/
def readBraces? (s : Text) : Option (Text × Text) := do
  let r ← after? ['\x7b'] s
  let r := if r.head? == some (char ':') then r.drop 1 else r
  let r := r.dropWhile (· == char ' ')
  let line := r.takeWhile (· != char '\n')
  let back := line.reverse.dropWhile (· != char '\x7d')
  let content := back.drop 1 |>.reverse
  if back.isEmpty || content.isEmpty || content.head? == some (char '\x7d') then none
  else some (content, r.drop (content.length + 1))

/-- A list that ends a text and has blanks in front: the text before it and its content. With
`ownLine` it stands on a line of its own, else after at least one space. -/
def atEnd? (ownLine : Bool) (s : Text) : Option (Text × Text) :=
  let trimmed := dropEndWhile (· == ' ') s
  let place (t : Text) : Option Text :=
    if ownLine then do
      let r ← after? ['\n'] t
      let (content, rest) ← readBraces? (r.dropWhile (· == ' '))
      if rest.isEmpty then some content else none
    else do
      let r ← after? [' '] t
      let (content, rest) ← readBraces? (r.dropWhile (· == ' '))
      if rest.isEmpty then some content else none
  let rec search (front : Text) : Text → Option (Text × Text)
    | [] => none
    | c :: t =>
        match place (c :: t) with
        | some content => some (front.reverse, content)
        | none => search (c :: front) t
  search [] trimmed

/-- Gives the attributes of a list that ends a text to an element, unless braces are left over:
the attributes, and the text without the list. -/
def takeAtEnd? (ownLine : Bool) (attrs : Table) (s : Text) : Option (Table × Text) := do
  let (front, content) ← atEnd? ownLine s
  let (items, left) := parse content
  if left.isEmpty then some (items.foldl assign attrs, front) else none

/-- Gives the attributes of a list at the front of a text to the element before it. -/
def takeAtFront? (attrs : Table) (s : Text) : Option (Table × Text) := do
  let (content, rest) ← readBraces? s
  let (items, left) := parse content
  some (items.foldl assign attrs,
      left.drop 1 ++ (if left.isEmpty then [] else [char '\x7d']) ++ rest)

/-! ## Lists in a document -/

/-- Whether a tag is that of a heading. -/
def isHeading (tag : Text) : Bool :=
  match tag with
  | ['h', d] => '1' ≤ d && d ≤ '6'
  | _ => false

/-- Takes the list at the end of the last text of a block, in front of nested lists. -/
def takeFromLast (tag : Text) (attrs : Table) (children : List Node) : Table × List Node :=
  let isNested : Node → Bool
    | .element t _ _ => t = "ul".text || t = "ol".text
    | _ => false
  let own := if tag = "li".text then children.takeWhile (!isNested ·) else children
  let nested := children.drop own.length
  match own.reverse with
  | .text s :: before =>
      let ownLine := !(isHeading tag || ["dt".text, "td".text, "th".text].elem tag)
      match takeAtEnd? ownLine attrs s with
      | some (attrs, front) =>
          let front := if isHeading tag then trimRight (dropEndWhile (· == '#') front) else front
          (attrs, before.reverse ++ [.text front] ++ nested)
      | none => (attrs, children)
  | _ => (attrs, children)

/-- Gives the lists after spans to the spans. -/
def takeAfterSpan (node : Node) (rest : List Node) : List Node :=
  match node, rest with
  | .element tag attrs children, .text s :: more =>
      if isBlock tag then node :: rest
      else
        match takeAtFront? attrs s with
        | some (attrs, s) => .element tag attrs children :: .text s :: more
        | none => node :: rest
  | _, _ => node :: rest

mutual

/-- A node with its attribute lists given to their elements. -/
def give : Node → Node
  | .text s => .text s
  | .literal c => .literal c
  | .verbatim s => .verbatim s
  | .element tag attrs children =>
      let (attrs, children') :=
        if isBlock tag then takeFromLast tag attrs (giveAll children)
        else (attrs, giveAll children)
      .element tag attrs (children'.foldr takeAfterSpan [])

/-- Some nodes with their attribute lists given to their elements. -/
def giveAll : List Node → List Node
  | [] => []
  | node :: nodes => give node :: giveAll nodes

end

end Stencil.Markdown.AttrList
