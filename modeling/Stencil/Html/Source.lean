import Stencil.Html.Token

set_option autoImplicit false

/-! # Sources

A source is read as a list of tokens, each start tag with the position of its `<`. The module
holds one step of the reading, a pass over the source, and the two passes together (`tokens`).
-/

namespace Stencil.Html

open Text

/-- What the reader expects: markup, or the raw text of an element. -/
inductive Mode where
  | markup
  | raw (name : Text)
  deriving DecidableEq, Repr

/-- A step of the reading: some tokens and what is read next, or a stop in front of the rest. -/
inductive Step where
  | go (tokens : List Token) (mode : Mode) (rest : Text)
  | stop (tokens : List Token) (rest : Text)
  deriving DecidableEq, Repr

namespace Step

/-- A piece of running text. -/
def plain (s : Text) : Token := .text .plain s

/-- A step inside raw text: to the end tag of the element, or a stop when there is none. An
end tag spelled with letters beyond ASCII does not close the element. -/
def inRawText (name s : Text) : Step :=
  match cutAt? (RawText.afterSpacedEndTag? name) s with
  | none => .stop [] s
  | some (front, found, rest) =>
      if found.all fun c => isBlank c || c.toNat < 0x80 then
        .go [plain front, .close name] .markup rest
      else .go [plain (front ++ found)] (.raw name) rest

/-- A step at a start tag, from what follows the `<` at a position. -/
def ofStartTag (position : Position) (s : Text) :
    Except ReadError (Option (List Token × Mode × Text)) :=
  match StartTag.read s with
  | .tag tag rest =>
      let raw := !tag.selfClosing && RawText.names.elem tag.name
      .ok (some ([.start position tag], if raw then .raw tag.name else .markup, rest))
  | .text rest => .ok (some ([plain ('<' :: s.take (s.length - rest.length))], .markup, rest))
  | .unfinished => .ok none
  | .overlong n => .error (.overlong n)

/-- The tokens at a `<`, from what follows it; `none` when the end of the text cuts them off. -/
def ofMarkup (position : Position) (s : Text) :
    Except ReadError (Option (List Token × Mode × Text)) :=
  let inMarkup (found : Option (List Token × Text)) : Option (List Token × Mode × Text) :=
    found.map fun (tokens, rest) => (tokens, .markup, rest)
  match s with
  | '/' :: r => .ok (inMarkup (Token.readEndTag? r))
  | '?' :: r => .ok (inMarkup (Token.readUpToClose? .instruction r))
  | '!' :: r => (Token.readDeclaration? r).map inMarkup
  | c :: _ =>
      if c.isAlpha then ofStartTag position s else .ok (some ([plain ['<']], .markup, s))
  | [] => .ok none

/-- A step at an ampersand, from what follows it. What may be the front of a reference stops
the reading. -/
def ofReference (last : Bool) (s : Text) : Except ReadError Step :=
  match s with
  | [] => .ok (.stop [] ['&'])
  | '#' :: r =>
      match Token.readNumber? r with
      | .ok (some (n, rest)) => .ok (.go [plain [CharRef.ofNumberInText n]] .markup rest)
      | .ok none =>
          if r.elem (char ';') then .ok (.stop [plain [char '&', char '#']] r)
          else .ok (.stop [] (char '&' :: s))
      | .error n => .error (.overlong n)
  | c :: r =>
      if c.isAlpha then
        match Token.readRefName? s with
        | some (name, rest) => .ok (.go [plain (CharRef.ofNameInText name)] .markup rest)
        | none => if last && r.isEmpty then .ok (.stop [] s) else .ok (.stop [] ('&' :: s))
      else .ok (.go [plain ['&']] .markup s)

/-- Whether a character is neither `<` nor `&`. -/
def isPlainChar (c : CodePoint) : Bool := c != '<' && c != '&'

/-- One step of the reading of a nonempty text at a position; `last` says that no more input
follows the text. -/
def next (last : Bool) (mode : Mode) (position : Position) (s : Text) : Except ReadError Step :=
  match mode with
  | .raw name => .ok (inRawText name s)
  | .markup =>
      match s with
      | '<' :: r => do
          match ← ofMarkup position r with
          | some (tokens, mode, rest) => .ok (.go tokens mode rest)
          | none =>
              if last && !r.isEmpty then
                let (front, rest) := Token.strayText r
                .ok (.go [plain ('<' :: front)] .markup rest)
              else .ok (.stop [] s)
      | '&' :: r => ofReference last r
      | _ => .ok (.go [plain (s.takeWhile isPlainChar)] .markup (s.dropWhile isPlainChar))

end Step

/-- How far the reading of a source has come. -/
structure Cursor where
  mode : Mode
  position : Position
  rest : Text
  deriving DecidableEq, Repr

namespace Cursor

/-- The cursor at the front of a source. -/
def start (source : Text) : Cursor := ⟨.markup, .origin, source⟩

/-- The cursor moved on to a shorter rest. -/
def moveTo (c : Cursor) (mode : Mode) (rest : Text) : Cursor :=
  ⟨mode, c.position.advance (c.rest.take (c.rest.length - rest.length)), rest⟩

/-- One pass over the rest of a source: the tokens found and where the pass stopped. -/
def pass (last : Bool) (c : Cursor) : Except ReadError (List Token × Cursor) :=
  if c.rest.isEmpty then .ok ([], c)
  else
    match Step.next last c.mode c.position c.rest with
    | .error e => .error e
    | .ok (.stop tokens rest) => .ok (tokens, c.moveTo c.mode rest)
    | .ok (.go tokens mode rest) =>
        if rest.length < c.rest.length then
          (pass last (c.moveTo mode rest)).map fun (more, final) => (tokens ++ more, final)
        else .ok (tokens, c)
termination_by c.rest.length

end Cursor

/-- The tokens of a source. Text left over by the second pass is running text, but raw text
without an end tag is dropped. -/
def tokens (source : Text) : Except ReadError (List Token) := do
  let (first, paused) ← (Cursor.start source).pass false
  let (second, final) ← paused.pass true
  let left := if final.mode = .markup && !final.rest.isEmpty then [Step.plain final.rest] else []
  .ok (first ++ second ++ left)

end Stencil.Html
