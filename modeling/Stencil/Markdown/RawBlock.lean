import Stencil.Html.Token
import Stencil.Markdown.Line

set_option autoImplicit false

/-! # Blocks of HTML

A block-level tag at the beginning of a line opens a block of HTML, which ends with the tag that
closes it and is kept as it is written; comments and declarations are such blocks too. What
follows a block on its last line is its trail, where a block may open anywhere. All other HTML
stays in the text.
-/

namespace Stencil.Markdown

open Text

namespace RawBlock

/-! ## Pieces of a source -/

/-- What a piece of a source is: running text, a tag, or something that is complete in itself. -/
inductive Kind where
  | text
  | start (name : Text)
  | close (name : Text)
  | single (isBlock : Bool)
  deriving DecidableEq, Repr

/-- A piece of a source: what it is, how it is written out, and the number of characters it
takes, less one. -/
structure Piece where
  kind : Kind
  written : Text
  more : Nat
  deriving DecidableEq, Repr

/-- A piece that is written out as it stands at the front of a text, from a reader's rest. -/
def Piece.upTo (kind : Kind) (s rest : Text) : Piece :=
  let written := s.take (s.length - rest.length)
  ⟨kind, written, written.length - 1⟩

/-- A single character of running text. -/
def Piece.char (c : CodePoint) : Piece := ⟨.text, [c], 0⟩

/-- The elements that have no end tag even as blocks. -/
def emptyBlocks : List Text := ["hr".text]

/-- The start tag at the front of a text. -/
def startTag (s : Text) : Except Overlong Piece :=
  match Html.StartTag.read (s.drop 1) with
  | .tag tag rest =>
      if tag.name.elem (char '`') then .ok (.char '<')
      else if tag.selfClosing then .ok (.upTo (.single (isBlock tag.name)) s rest)
      else .ok (.upTo (.start tag.name) s rest)
  | .text rest => .ok (.upTo .text s rest)
  | .unfinished => .ok (.char '<')
  | .overlong n =>
      if ((s.drop 1).takeWhile Html.StartTag.isNameChar).elem (char '`') then .ok (.char '<')
      else .error n

/-- The end tag at the front of a text. -/
def endTag (s : Text) : Piece :=
  match Html.Token.readEndTag? (s.drop 2) with
  | none => .char '<'
  | some ([.close name], rest) => .upTo (.close name) s rest
  | some ([], rest) => .upTo .text s rest
  | some (_, rest) => .upTo (.single false) s rest

/-- The comment at the front of a text. What ends in `--`, blanks and `>` is no comment. -/
def comment (s : Text) : Piece :=
  let close (t : Text) := (after? ['-', '-'] t).bind (Html.Token.afterSpaced? ['>'])
  match cutAt? close (s.drop 4) with
  | some (_, found, rest) =>
      if found = "-->".text then .upTo (.single true) s rest else .char '<'
  | none => .char '<'

/-- The declaration at the front of a text. -/
def declaration (s : Text) : Piece :=
  let upTo (close : Text) (isBlock : Bool) : Piece :=
    match cut? close s with
    | some (_, rest) => .upTo (.single isBlock) s rest
    | none => .char '<'
  if startsWith s "<![CDATA[".text then upTo "]]>".text true
  else upTo ['>'] (lower (s.take 9) = "<!doctype".text)

/-- The instruction at the front of a text. -/
def instruction (s : Text) : Piece :=
  match cut? ['?', '>'] (s.drop 2) with
  | some (_, rest) => .upTo (.single true) s rest
  | none => .char '<'

/-- The character reference at the front of a text; a number counts without a semicolon, and
is written with one. -/
def reference (s : Text) : Piece :=
  let isNameChar (c : CodePoint) : Bool := c.isAlphanum || c == '-' || c == '.'
  let number (mark : Text) (p : CodePoint → Bool) (r : Text) : Piece :=
    let digits := r.takeWhile p
    match r.drop digits.length with
    | c :: _ =>
        if digits.isEmpty || Html.CharRef.isHexDigit c then .char '&'
        else
          let written := mark ++ digits ++ [char ';']
          ⟨.single false, written, mark.length + digits.length - (if c = ';' then 0 else 1)⟩
    | [] => .char '&'
  match s with
  | '&' :: '#' :: x :: r =>
      if x = 'x' || x = 'X' then number ['&', '#', x] Html.CharRef.isHexDigit r
      else number ['&', '#'] CodePoint.isDigit (x :: r)
  | '&' :: c :: r =>
      match r.dropWhile isNameChar with
      | ';' :: rest => if c.isAlpha then .upTo (.single false) s rest else .char '&'
      | _ => .char '&'
  | _ => .char '&'

/-- The piece at the front of a text. Declarations and instructions count only where a block
may open. -/
def piece (opens : Bool) (c : CodePoint) (s : Text) : Except Overlong Piece :=
  if c = '&' then .ok (reference (c :: s))
  else if c = '<' then
    match s with
    | '/' :: _ => .ok (endTag (c :: s))
    | '!' :: '-' :: '-' :: _ => .ok (comment (c :: s))
    | '!' :: _ => .ok (if opens then declaration (c :: s) else .char c)
    | '?' :: _ => .ok (if opens then instruction (c :: s) else .char c)
    | d :: _ => if d.isAlpha then startTag (c :: s) else .ok (.char c)
    | [] => .ok (.char c)
  else .ok (.char c)

/-! ## Putting blocks aside -/

/-- The state of the reading: the open elements of the current block from the inside, whether
the reader is in the trail of a block, the text of the block so far, the text outside blocks so
far, and the current line so far, the last three in reverse. -/
structure State where
  stack : List Text
  inTrail : Bool
  block : Text
  outside : Text
  line : Text

/-- Nothing read yet. -/
def State.start : State := ⟨[], false, [], [], []⟩

/-- Whether the reader is at the beginning of a line, up to three blanks aside. -/
def State.atLineStart (st : State) : Bool := st.line.length < tabWidth && isBlankText st.line

/-- Whether a block may open. -/
def State.opens (st : State) : Bool := st.inTrail || st.atLineStart

/-- The state with more text outside blocks. -/
def State.write (st : State) (s : Text) : State := { st with outside := s.reverse ++ st.outside }

/-- The state with more text in the current block. -/
def State.keep (st : State) (s : Text) : State := { st with block := s.reverse ++ st.block }

/-- Reads running text. -/
def State.addText (st : State) (s : Text) : State :=
  let st := { st with inTrail := st.inTrail && !s.elem (char '\n') }
  if st.stack.isEmpty then st.write s else st.keep s

/-- Puts a piece of HTML aside and writes its mark. -/
def State.put (st : State) (html : Text) : Reading State := do
  let desk ← get
  let mark ← store (.verbatim (desk.wordsOf html))
  pure (st.write (mark ++ [char '\n', char '\n']))

/-- Whether a text begins with an empty line after the current one. -/
def blankFollows (s : Text) : Bool :=
  match s.dropWhile (· == char ' ') with
  | '\n' :: r => (r.dropWhile (· == char ' ')).head? == some (char '\n')
  | _ => false

/-- Reads something that is complete in itself; `rest` is what follows it. -/
def State.addSingle (st : State) (isBlock : Bool) (s rest : Text) : Reading State :=
  if st.inTrail || !st.stack.isEmpty then pure (st.keep s)
  else if isBlock && st.atLineStart then do
    let blank := blankFollows rest
    let st := { st with inTrail := st.inTrail || !blank }
    let st :=
      match st.outside with
      | '\n' :: '\n' :: _ => st
      | '\n' :: _ => st.write ['\n']
      | _ => st
    st.put (if blank then s ++ [char '\n'] else s)
  else pure (st.write s)

/-- Reads a start tag. -/
def State.open (st : State) (name s rest : Text) : Reading State :=
  if emptyBlocks.elem name && st.opens then st.addSingle true s rest
  else
    let opening := isBlock name && st.opens
    if opening || !st.stack.isEmpty then
      let st := if opening then st.write ['\n'] else st
      pure ({ st with stack := name :: st.stack }.keep s)
    else pure (st.addText s)

/-- The open elements without those that the end tag of a name closes. -/
def closeUpTo (name : Text) (stack : List Text) : List Text :=
  if stack.elem name then (stack.dropWhile (· != name)).drop 1 else stack

/-- Reads an end tag. -/
def State.close (st : State) (name s rest : Text) : Reading State := do
  if st.stack.isEmpty then pure (st.addText s)
  else
    let st := { st.keep s with stack := closeUpTo name st.stack }
    if st.stack.isEmpty then
      let blank := blankFollows rest
      let html := (if blank then char '\n' :: st.block else st.block).reverse
      ({ st with inTrail := st.inTrail || !blank, block := [] }).put html
    else pure st

/-- The line so far with one more character. -/
def lineAfter (line : Text) (c : CodePoint) : Text := if c = '\n' then [] else c :: line

/-- Whether the end tag of a script or a style sheet stands at the front of a text. -/
def closesScript (name s : Text) : Bool := (Html.RawText.afterSpacedEndTag? name s).isSome

/-- The script or style sheet whose content follows a piece. -/
def scriptAfter (st : State) : Kind → Option Text
  | .start name => if Html.RawText.names.elem name && !st.stack.isEmpty then some name else none
  | _ => none

/-- Reads a piece; `rest` is what follows it. -/
def State.add (st : State) (found : Piece) (rest : Text) : Reading State :=
  match found.kind with
  | .text => pure (st.addText found.written)
  | .start name => st.open name found.written rest
  | .close name => st.close name found.written rest
  | .single isBlock => st.addSingle isBlock found.written rest

/-- Puts the blocks of HTML in a text aside. `script` is the script or style sheet that the text
stands in, and the number counts the characters of the last piece that are still to be passed
over. -/
def readFrom (st : State) (script : Option Text) : Nat → Text → Reading State
  | _, [] => pure st
  | k + 1, c :: s => readFrom { st with line := lineAfter st.line c } script k s
  | 0, c :: s => do
      let found ←
        match script with
        | none => (piece st.opens c s : Except Overlong Piece)
        | some name =>
            (pure (if closesScript name (c :: s) then endTag (c :: s) else .char c) :
              Except Overlong Piece)
      let next ← st.add found (s.drop found.more)
      let script := if found.kind = .text then script else scriptAfter next found.kind
      readFrom { next with line := lineAfter next.line c } script found.more s

/-- Puts the blocks of HTML in a document aside; a block that is not closed ends with the
document. -/
def putAside (lines : List Text) : Reading (List Text) := do
  let st ← readFrom .start none 0 (join ['\n'] lines)
  let desk ← get
  let last ←
    if st.block.isEmpty then pure [] else store (.verbatim (desk.wordsOf st.block.reverse))
  pure (splitOn '\n' (st.outside.reverse ++ last))

end RawBlock
end Stencil.Markdown
