import Stencil.Text.Quoted
import Stencil.Html.Position
import Stencil.Html.RawText
import Stencil.Html.StartTag

set_option autoImplicit false

/-! # Tokens

A source as a sequence of tags and pieces of text. Reading never fails on broken markup, with
two exceptions: a marked section `<![…` without a known keyword is rejected, and a number with too
many digits is not read.

The source is read in two passes. The first stops where more input could change the reading,
as at a tag that is not finished; the second goes on from there, knowing that the input ends,
and takes what is left as text.
-/

namespace Stencil.Html

open Text

/-- What a piece of text in a document is. -/
inductive TextKind where
  | plain
  | comment
  | doctype
  | declaration
  | cdata
  | instruction
  deriving DecidableEq, Repr

/-- A tag, or a piece of text. -/
inductive Token where
  | start (position : Position) (tag : StartTag)
  | close (name : Text)
  | text (kind : TextKind) (content : Text)
  deriving DecidableEq, Repr

/-- Why markup is rejected: a marked section has an unknown keyword, or no keyword at all. -/
inductive Rejection where
  | unknownSection (keyword : Text)
  | missingKeyword (found : Text)
  deriving DecidableEq, Repr

/-- The cause of a rejection in words. -/
def Rejection.cause : Rejection → Text
  | .unknownSection keyword =>
      "unknown status keyword ".text ++ quoted keyword ++ " in marked section".text
  | .missingKeyword found => "expected name token at ".text ++ quoted found

/-- The message of a rejection. -/
def Rejection.message (r : Rejection) : Text :=
  "The markup you provided was rejected by the parser. ".text ++
    "Trying a different parser or a different encoding may help.\n\n".text ++
    "Original error(s) from parser:\n AssertionError: ".text ++ r.cause

/-- Why a source cannot be read: its markup is rejected, or a number in it has too many digits. -/
inductive ReadError where
  | rejected (rejection : Rejection)
  | overlong (n : Overlong)
  deriving DecidableEq, Repr

namespace Token

/-! ## Reading one token

Each reader gets what follows the characters that select it, and gives the tokens it found
with the rest of the text, or `none` when the end of the text cuts it off. -/

/-- What follows the given characters at the front of a text, with blanks allowed before each
of them. -/
def afterSpaced? : Text → Text → Option Text
  | [], s => some s
  | p :: ps, s => (after? [p] (trimLeft s)).bind (afterSpaced? ps)

/-- Whether a character may stand in the name of an end tag. -/
def isEndNameChar (c : CodePoint) : Bool := c.isAlphanum || [char '-', '.', ':', '_'].elem c

/-- An end tag, from what follows `</`. What has no name is a comment, and `</>` is nothing. -/
def readEndTag? (s : Text) : Option (List Token × Text) :=
  (cut? ['>'] s).map fun (inside, rest) =>
    let name := trim inside
    if (name.head?.map CodePoint.isAlpha).getD false && name.all isEndNameChar then
      ([.close (lower name)], rest)
    else if (inside.head?.map CodePoint.isAlpha).getD false then
      ([.close (lower (inside.takeWhile StartTag.isNameChar))], rest)
    else if inside.isEmpty then ([], rest)
    else ([.text .comment inside], rest)

/-- A comment, from what follows `<!--`. -/
def readComment? (s : Text) : Option (List Token × Text) :=
  (cutAt? (fun t => (after? ['-', '-'] t).bind (afterSpaced? ['>'])) s).map
    fun (content, _, rest) => ([.text .comment content], rest)

/-- A piece of text of some kind that ends at the next `>`. -/
def readUpToClose? (kind : TextKind) (s : Text) : Option (List Token × Text) :=
  (cut? ['>'] s).map fun (content, rest) => ([.text kind content], rest)

/-- Whether a character may stand in the keyword of a marked section. -/
def isKeywordChar (c : CodePoint) : Bool := c.isAlphanum || [char '-', '_', '.'].elem c

/-- The keywords of marked sections that end in `]]>`. -/
def sectionKeywords : List Text :=
  ["temp", "cdata", "ignore", "include", "rcdata"].map String.text

/-- The keywords of marked sections that end in `]>`. -/
def conditionKeywords : List Text := ["if", "else", "endif"].map String.text

/-- The text of a marked section as a token: character data, or a declaration. -/
def ofSection (content : Text) : Token :=
  let mark := "cdata[".text
  if (content.take mark.length).map CodePoint.toLower = mark then
    .text .cdata (content.drop mark.length)
  else .text .declaration content

/-- A marked section, from what follows `<![`. -/
def readSection? (s : Text) : Except ReadError (Option (List Token × Text)) :=
  if s.isEmpty then .ok none
  else if !(s.head?.map CodePoint.isAlpha).getD false then
    .error (.rejected (.missingKeyword ("<![".text ++ s.take 17)))
  else
    let keyword := s.takeWhile isKeywordChar
    let blanks := (s.dropWhile isKeywordChar).takeWhile isBlank
    if s.length = keyword.length + blanks.length then .ok none
    else
      let upTo (close : Text) :=
        (cutAt? (fun t => (after? [']'] t).bind (afterSpaced? close)) s).map
          fun (content, _, rest) => ([ofSection content], rest)
      if sectionKeywords.elem (lower keyword) then .ok (upTo [']', '>'])
      else if conditionKeywords.elem (lower keyword) then .ok (upTo ['>'])
      else .error (.rejected (.unknownSection (keyword ++ blanks)))

/-- What begins with `<!`, from what follows it. -/
def readDeclaration? (s : Text) : Except ReadError (Option (List Token × Text)) :=
  let word := "doctype".text
  match s with
  | '-' :: '-' :: r => .ok (readComment? r)
  | '[' :: r => readSection? r
  | _ =>
      if (s.take word.length).map CodePoint.toLower = word then
        .ok ((cut? ['>'] (s.drop word.length)).map fun (content, rest) =>
          ([.text .doctype (content.drop 1)], rest))
      else .ok (readUpToClose? .comment s)

/-- The text at the front of what follows a `<` that opens nothing: up to the next `>`, or
else to the next `<`, or else nothing. -/
def strayText (s : Text) : Text × Text :=
  match cut? ['>'] s with
  | some (front, rest) => (front ++ [char '>'], rest)
  | none =>
      match cut? ['<'] s with
      | some (front, rest) => (front, char '<' :: rest)
      | none => ([], s)

/-- The text without a semicolon at its front. -/
def skipSemicolon : Text → Text
  | ';' :: s => s
  | s => s

/-- The number of a character reference with what follows it, from what follows `&#`, unless it
has too many digits. The digits count only when something stands after them. -/
def readNumber? (s : Text) : Except Overlong (Option (Nat × Text)) :=
  let digits := s.takeWhile CodePoint.isDigit
  if !digits.isEmpty then
    match s.dropWhile CodePoint.isDigit with
    | c :: rest =>
        if CharRef.isHexDigit c then .ok none
        else
          match overlong? digits.length with
          | some n => .error n
          | none => .ok (some (CharRef.numberOf 10 digits, skipSemicolon (c :: rest)))
    | [] => .ok none
  else
    match s with
    | x :: t =>
        let digits := t.takeWhile CharRef.isHexDigit
        let rest := t.dropWhile CharRef.isHexDigit
        if (x = 'x' || x = 'X') && !digits.isEmpty && !rest.isEmpty then
          .ok (some (CharRef.numberOf 16 digits, skipSemicolon rest))
        else .ok none
    | [] => .ok none

/-- Whether a character may stand in the name of a character reference. -/
def isRefNameChar (c : CodePoint) : Bool := c.isAlphanum || c == '-' || c == '.'

/-- The name of a character reference with what follows it, from what follows `&`. Something
must stand after the name; at the end of the text its last dash or dot is that. -/
def readRefName? (s : Text) : Option (Text × Text) :=
  let name := s.takeWhile isRefNameChar
  match s.dropWhile isRefNameChar with
  | c :: rest => some (name, skipSemicolon (c :: rest))
  | [] =>
      match name.reverse.dropWhile CodePoint.isAlphanum with
      | _ :: front => some (front.reverse, name.drop front.length)
      | [] => none

end Token
end Stencil.Html
