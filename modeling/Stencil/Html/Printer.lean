import Stencil.Html.Tree

set_option autoImplicit false

/-! # Printing

Trees and start tags as text. A tree is printed in one canonical form, with the attributes in
the order of their names; `startTagText` keeps the order it is given.
-/

namespace Stencil.Html

open Text

/-! ## Start tags -/

/-- A value as it is written between double quotes. -/
def escapeValue (s : Text) : Text :=
  s.flatMap fun c : CodePoint =>
    if c = '&' then "&amp;".text else if c = char '"' then "&quot;".text else [c]

/-- An attribute as it is written in a start tag. -/
def attrText (attr : Text × Text) : Text :=
  [char ' '] ++ attr.1 ++ [char '=', char '"'] ++ escapeValue attr.2 ++ [char '"']

/-- The start tag of a name with some attributes. -/
def startTagText (name : Text) (attrs : Attributes) : Text :=
  [char '<'] ++ name ++ attrs.flatMap attrText ++ [char '>']

/-- The end tag of a name. -/
def endTagText (name : Text) : Text := [char '<', char '/'] ++ name ++ [char '>']

/-! ## Trees -/

/-- Running text with the characters that open markup written as references. -/
def escapeText (s : Text) : Text :=
  s.flatMap fun c : CodePoint =>
    if c = '&' then "&amp;".text
    else if c = '<' then "&lt;".text
    else if c = '>' then "&gt;".text
    else [c]

/-- A value between quotes: double ones, unless the value holds these and no single ones. -/
def quoteValue (s : Text) : Text :=
  if s.elem (char '"') then
    if s.elem (char '\'') then [char '"'] ++ replaceAll [char '"'] "&quot;".text s ++ [char '"']
    else [char '\''] ++ s ++ [char '\'']
  else [char '"'] ++ s ++ [char '"']

/-- The encoding every printed tree declares. -/
def declaredEncoding : Text := "utf-8".text

/-- Replaces the encodings declared in the content of a `meta` element. `ready` says whether a
declaration may begin here. -/
def declareEncodingFrom (ready : Bool) : Nat → Text → Text
  | _, [] => []
  | k + 1, c :: s => declareEncodingFrom (isBlank c || c == ';') k s
  | 0, c :: s =>
      let word := "charset=".text
      if ready && startsWith (c :: s) word then
        let value := ((c :: s).drop word.length).takeWhile (· != char ';')
        word ++ declaredEncoding ++
          declareEncodingFrom false (word.length + value.length - 1) s
      else c :: declareEncodingFrom (isBlank c || c == ';') 0 s

/-- The value of an attribute as it is printed: a `meta` element declares the encoding of the
printed text. -/
def printedValue (tag : Tag) (attr : Text × Text) : Text :=
  let (name, value) := attr
  if tag.name = "meta".text then
    if tag.attrs.has "charset".text then
      if name = "charset".text then declaredEncoding else value
    else if name = "content".text &&
        (tag.attrs.get? "http-equiv".text).map lower = some "content-type".text then
      declareEncodingFrom true 0 value
    else value
  else value

/-- The start tag of an element in canonical form, up to the mark that ends it. -/
def printOpen (tag : Tag) : Text :=
  let sorted := tag.attrs.mergeSort fun a b => !(b.1 < a.1)
  [char '<'] ++ tag.name ++ sorted.flatMap fun attr =>
    [char ' '] ++ attr.1 ++ [char '='] ++ quoteValue (escapeText (printedValue tag attr))

/-- A piece of text as it is printed in an element. -/
def printText (parent : Text) : TextKind → Text → Text
  | .plain, s => if RawText.names.elem parent then s else escapeText s
  | .comment, s => "<!--".text ++ s ++ "-->".text
  | .doctype, s => "<!DOCTYPE ".text ++ s ++ ">\n".text
  | .declaration, s => "<?".text ++ s ++ "?>".text
  | .cdata, s => "<![CDATA[".text ++ s ++ "]]>".text
  | .instruction, s => "<?".text ++ s ++ ">".text

mutual

/-- A node as it is printed in an element. -/
def Node.print (parent : Text) : Node → Text
  | .text kind s => printText parent kind s
  | .element tag children =>
      if children.isEmpty && emptyNames.elem tag.name then printOpen tag ++ [char '/', char '>']
      else printOpen tag ++ [char '>'] ++ printNodes tag.name children ++ endTagText tag.name

/-- The content of an element as it is printed. -/
def printNodes (parent : Text) : List Node → Text
  | [] => []
  | node :: nodes => node.print parent ++ printNodes parent nodes

end

end Stencil.Html
