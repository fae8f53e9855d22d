import Stencil.Markdown.Span.Basic
import Stencil.Text.Word

set_option autoImplicit false

/-! # Code, escapes and HTML in text

The spans whose content is not read: code between backticks, characters behind a backslash,
tags, comments and character references, and line breaks. A row of asterisks or underscores
between blanks is text.
-/

namespace Stencil.Markdown

open Text

namespace Span

/-! ## Code -/

/-- The content of code that was opened by some backticks and the text after it: up to as many
backticks with no other beside them. -/
def codeUpTo? (ticks s : Text) : Option (Text × Text) :=
  let close (front s : Text) : Option (Text × Text) :=
    if front.isEmpty || front.head? = some (char '`') then none
    else
      match after? ticks s with
      | some ('`' :: _) => none
      | found => found.map (front.reverse, ·)
  firstSplit? close [] s

/-- Code that is opened by a number of backticks or fewer. -/
def codeFrom? (s : Text) : Nat → Option (Text × Text)
  | 0 => none
  | k + 1 => (codeUpTo? (List.replicate (k + 1) '`') (s.drop (k + 1))).or (codeFrom? s k)

/-- Code between backticks. Pairs of backslashes in front of it are backslashes. -/
def code : Pattern := fun before s =>
  pure <|
    if before = some (char '\\') then none
    else
      match s with
      | '`' :: _ =>
          (codeFrom? s (s.takeWhile (· == char '`')).length).bind fun (content, rest) =>
            let html := escapeCode (trim content)
            Pattern.found (.element "code".text [] [.verbatim html]) s rest
      | '\\' :: '\\' :: _ =>
          let slashes := (s.takeWhile (· == char '\\')).length
          if slashes % 2 = 0 && (s.drop slashes).head? = some (char '`') then
            some ⟨some (.literal '\\'), 2⟩
          else none
      | _ => none

/-! ## Escapes and breaks -/

/-- The characters that a backslash keeps from being markup. -/
def escapable : Text := "\\`*_\x7b\x7d[]()>#+-.!|".text

/-- A character behind a backslash. -/
def escape : Pattern := fun _ s =>
  pure <|
    match s with
    | '\\' :: c :: _ => some ⟨if escapable.elem c then some (.literal c) else none, 2⟩
    | _ => none

/-- Two spaces at the end of a line break it. -/
def lineBreak : Pattern := fun _ s =>
  pure ((after? [' ', ' ', '\n'] s).bind (Pattern.found (.element "br".text [] []) s))

/-- A row of up to three asterisks or underscores between blanks. -/
def loneSigns : Pattern := fun before s =>
  pure <|
    match s with
    | c :: _ =>
        let signs := s.takeWhile (· == c)
        let blankBefore := (before.map isBlank).getD true
        let blankAfter := ((s.drop signs.length).head?.map isBlank).getD true
        if (c = '*' || c = '_') && signs.length ≤ 3 && blankBefore && blankAfter then
          some ⟨some (.text signs), signs.length⟩
        else none
    | [] => none

/-! ## HTML -/

/-- A text as it was before its spans were read. -/
def sourceOf : Node → Text
  | .text s => s
  | .literal c => ['\\', c]
  | node => node.print

/-- The HTML at the front of a text, as it was before spans in it were read. -/
def html (s rest : Text) : Reading (Option Found) := do
  let desk ← get
  let source := (desk.resolve (s.take (s.length - rest.length))).flatMap sourceOf
  pure (Pattern.found (.verbatim source) s rest)

/-- What follows the tag at the front of a text. -/
def afterTag? (s : Text) : Option Text := do
  let r ← after? ['<'] s
  let name := (after? ['/'] r).getD r
  if !(name.head?.map CodePoint.isAlpha).getD false then none
  else
    let rest := name.dropWhile fun c => !([char '<', '>', '@', ' '].elem c)
    match rest with
    | ' ' :: t => after? ['>'] (t.dropWhile fun c => c != '<' && c != '>')
    | t => after? ['>'] t

/-- What follows the comment at the front of a text. No comment begins in another. -/
def afterComment? (s : Text) : Option Text := do
  let (inside, rest) ← cut? "-->".text (← after? "<!--".text s)
  if contains inside "<!--".text then none else some rest

/-- A tag or a comment. -/
def tag : Pattern := fun _ s =>
  match (afterTag? s).or (afterComment? s) with
  | some rest => html s rest
  | none => pure none

/-- What follows the character reference at the front of a text. -/
def afterReference? (s : Text) : Option Text := do
  let r ← after? ['&'] s
  let some' (p : CodePoint → Bool) (t : Text) : Option Text :=
    if (t.head?.map p).getD false then after? [';'] (t.dropWhile p) else none
  match r with
  | '#' :: 'x' :: t => some' Html.CharRef.isHexDigit t
  | '#' :: t => some' CodePoint.isDigit t
  | t => some' CodePoint.isAlphanum t

/-- A character reference. -/
def reference : Pattern := fun _ s =>
  match afterReference? s with
  | some rest => html s rest
  | none => pure none

end Span
end Stencil.Markdown
