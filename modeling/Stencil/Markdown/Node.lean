import Stencil.Html.CharRef
import Stencil.Table
import Stencil.Text.Blank

set_option autoImplicit false

/-! # Documents

A Markdown document as a tree of elements, of text and of verbatim pieces, and its form in HTML.
Line breaks between blocks are put in when the tree is finished (`Node.pretty`).

The text of an element is either its lead, in front of the first child, or the tail of a child.
-/

namespace Stencil.Markdown

open Text

/-- Text, a character that a backslash keeps from being markup, text that is printed as it is,
or an element. -/
inductive Node where
  | text (s : Text)
  | literal (c : CodePoint)
  | verbatim (s : Text)
  | element (tag : Text) (attrs : Table) (children : List Node)

/-- The tags of blocks. -/
def blockTags : List Text :=
  ["address", "article", "aside", "blockquote", "details", "div", "dl", "fieldset",
    "figcaption", "figure", "footer", "form", "h1", "h2", "h3", "h4", "h5", "h6", "header",
    "hgroup", "hr", "main", "menu", "nav", "ol", "p", "pre", "section", "table", "ul", "canvas",
    "colgroup", "dd", "body", "dt", "group", "html", "iframe", "li", "legend", "math", "map",
    "noscript", "output", "object", "option", "progress", "script", "style", "summary", "tbody",
    "td", "textarea", "tfoot", "th", "thead", "tr", "video", "center"].map String.text

/-- The tags of elements that are printed without an end tag. -/
def emptyTags : List Text :=
  ["area", "base", "basefont", "br", "col", "frame", "hr", "img", "input", "isindex", "link",
    "meta", "param"].map String.text

/-- Whether a tag is that of a block. -/
def isBlock (tag : Text) : Bool := blockTags.elem (tag.map CodePoint.toLower)

/-! ## Printing -/

/-- Whether a text after an ampersand goes on as a character reference. -/
def isReference (s : Text) : Bool :=
  let closes (p : CodePoint → Bool) (t : Text) : Bool :=
    !(t.takeWhile p).isEmpty && (t.dropWhile p).head? == some (char ';')
  match s with
  | '#' :: x :: r =>
      closes CodePoint.isDigit (x :: r) ||
        ((x == 'x' || x == 'X') && closes Html.CharRef.isHexDigit r)
  | _ => closes CodePoint.isAlphanum s

/-- A text with the characters of markup written as references; references stay. -/
def escapeMarkup : Text → Text
  | [] => []
  | '&' :: s => (if isReference s then [char '&'] else "&amp;".text) ++ escapeMarkup s
  | '<' :: s => "&lt;".text ++ escapeMarkup s
  | '>' :: s => "&gt;".text ++ escapeMarkup s
  | c :: s => c :: escapeMarkup s

/-- The value of an attribute as it is printed. -/
def escapeValue (s : Text) : Text := replaceAll ['"'] "&quot;".text (escapeMarkup s)

/-- A text in which every character of markup is written as a reference. -/
def escapeCode (s : Text) : Text :=
  s.flatMap fun c : CodePoint =>
    if c = '&' then "&amp;".text
    else if c = '<' then "&lt;".text
    else if c = '>' then "&gt;".text
    else [c]

/-- Whether a piece of HTML begins with the tag of a block, a comment or a declaration. -/
def isBlockHtml (html : Text) : Bool :=
  match html with
  | '<' :: r =>
      let r := if r.head? == some (char '/') then r.drop 1 else r
      let name := r.takeWhile fun c => c != char ' ' && c != char '>'
      match name with
      | [] => false
      | c :: _ => [char '!', char '?', char '@', char '%'].elem c || isBlock name
  | _ => false

/-- The start tag of an element up to the mark that ends it. -/
def printOpen (tag : Text) (attrs : Table) : Text :=
  let sorted := attrs.mergeSort fun a b => !(b.1 < a.1)
  [char '<'] ++ tag ++ sorted.flatMap fun (name, value) =>
    [char ' '] ++ name ++ [char '=', char '"'] ++ escapeValue value ++ [char '"']

/-- A paragraph that holds nothing but a block of HTML is that block. -/
def loneBlock? (tag : Text) (attrs : Table) (children : List Node) : Option Text :=
  match children with
  | [.verbatim html] =>
      if tag = [char 'p'] && attrs.isEmpty && isBlockHtml html then some html else none
  | _ => none

mutual

/-- The HTML of a node. -/
def Node.print : Node → Text
  | .text s => escapeMarkup s
  | .literal c => escapeMarkup [c]
  | .verbatim s => s
  | .element tag attrs children =>
      match loneBlock? tag attrs children with
      | some html => html
      | none =>
          if emptyTags.elem tag then printOpen tag attrs ++ " />".text
          else printOpen tag attrs ++ [char '>'] ++ printAll children ++ [char '<', char '/']
              ++ tag ++ [char '>']

/-- The HTML of some nodes. -/
def printAll : List Node → Text
  | [] => []
  | node :: nodes => node.print ++ printAll nodes

end

mutual

/-- The words of a node, without its tags. -/
def Node.words : Node → Text
  | .text s => s
  | .literal c => [c]
  | .verbatim s => s
  | .element _ _ children => wordsOf children

/-- The words of some nodes, without tags. -/
def wordsOf : List Node → Text
  | [] => []
  | node :: nodes => node.words ++ wordsOf nodes

end

/-! ## Parts -/

/-- The last element of some nodes with its tail, and the nodes in front of it. -/
def lastElement? (nodes : List Node) : Option (List Node × Node × Text) :=
  match nodes.reverse with
  | .text tail :: .element tag attrs children :: front =>
      some (front.reverse, .element tag attrs children, tail)
  | .element tag attrs children :: front => some (front.reverse, .element tag attrs children, [])
  | _ => none

/-- The lead of some nodes, and the other nodes. -/
def splitLead : List Node → Text × List Node
  | .text lead :: nodes => (lead, nodes)
  | nodes => ([], nodes)

/-- A text as nodes. -/
def textNodes (s : Text) : List Node := if s.isEmpty then [] else [.text s]

/-- An element that holds a text. -/
def Node.ofText (tag s : Text) : Node := .element tag [] (textNodes s)

mutual

/-- A node with the texts of its elements replaced, leads by one function and tails by another. -/
def Node.mapTexts {M : Type → Type} [Monad M] (ofLead ofTail : Text → M (List Node)) :
    Node → M Node
  | .element tag attrs children => do
      pure (.element tag attrs (← mapTextsOf ofLead ofTail ofLead children))
  | node => pure node

/-- Some nodes with the texts of their elements replaced; a text in front is replaced by
`ofNext`. -/
def mapTextsOf {M : Type → Type} [Monad M] (ofLead ofTail ofNext : Text → M (List Node)) :
    List Node → M (List Node)
  | [] => pure []
  | .text s :: nodes => do
      let front ← ofNext s
      pure (front ++ (← mapTextsOf ofLead ofTail ofTail nodes))
  | node :: nodes => do
      let node ← node.mapTexts ofLead ofTail
      pure (node :: (← mapTextsOf ofLead ofTail ofTail nodes))

end

/-! ## Line breaks between blocks -/

/-- Whether a node is an element. -/
def Node.isElement : Node → Bool
  | .element _ _ _ => true
  | _ => false

/-- Whether a node is an element that is a block. -/
def Node.isBlockElement : Node → Bool
  | .element tag _ _ => isBlock tag
  | _ => false

/-- Whether a node is blank text. -/
def Node.isBlank : Node → Bool
  | .text s => isBlankText s
  | _ => false

/-- Whether only blank text stands in front of the first element. -/
def leadsBlank (nodes : List Node) : Bool :=
  match nodes.dropWhile Node.isBlank with
  | [] => true
  | node :: _ => node.isElement

/-- The nodes with a line break in front instead of blank text. -/
def withBreak (nodes : List Node) : List Node :=
  .text ['\n'] :: nodes.dropWhile Node.isBlank

/-- Puts a line break after a node, if it is a block, and after `br`. -/
def addBreak (node : Node) (rest : List Node) : List Node :=
  match node with
  | .element tag _ _ =>
      if tag = "br".text then
        node :: (if leadsBlank rest then withBreak rest else .text ['\n'] :: rest)
      else if isBlock tag && leadsBlank rest then node :: withBreak rest
      else node :: rest
  | _ => node :: rest

/-- Puts line breaks between the children of a block. -/
def layOut (children : List Node) : List Node :=
  let spaced := children.foldr addBreak []
  match spaced.dropWhile Node.isBlank with
  | node :: _ => if node.isBlockElement then withBreak spaced else spaced
  | [] => spaced

/-- Code that ends in one line break. -/
def tidyCode (children : List Node) : List Node :=
  match children with
  | [.element tag attrs [.verbatim s]] =>
      if tag = "code".text then [.element tag attrs [.verbatim (trimRight s ++ [char '\n'])]]
      else children
  | _ => children

mutual

/-- A node with line breaks between its blocks. -/
def Node.pretty : Node → Node
  | .text s => .text s
  | .literal c => .literal c
  | .verbatim s => .verbatim s
  | .element tag attrs children =>
      if tag = "pre".text then .element tag attrs (tidyCode children)
      else if isBlock tag then .element tag attrs (layOut (prettyAll children))
      else .element tag attrs ((prettyAll children).foldr addBreak [])

/-- Some nodes with line breaks between their blocks. -/
def prettyAll : List Node → List Node
  | [] => []
  | node :: nodes => node.pretty :: prettyAll nodes

end

end Stencil.Markdown
