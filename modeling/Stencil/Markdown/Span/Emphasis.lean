import Stencil.Markdown.Span.Basic
import Stencil.Text.Word

set_option autoImplicit false

/-! # Emphasis

One sign on both sides is emphasis, two signs are strong emphasis, and three are both; signs
may also close one after the other. Inside an emphasis only the forms that come later in the
list of forms are looked for. Underscores do not count inside a word.
-/

namespace Stencil.Markdown

open Text

namespace Emphasis

/-- Emphasized text: by one tag; by two tags, the second around the front only; or by two tags,
the second around the end only. -/
inductive Shape where
  | plain (tag s : Text)
  | front (outer inner s rest : Text)
  | back (outer inner s rest : Text)
  deriving DecidableEq, Repr

/-- A form of emphasis: reads at a place, given the character before it. -/
abbrev Form := Option CodePoint → Text → Option (Shape × Text)

/-- The tag of emphasis. -/
def em : Text := "em".text

/-- The tag of strong emphasis. -/
def strong : Text := "strong".text

/-- Whether a character is part of a word. -/
def isInWord (c : Option CodePoint) : Bool := (c.map isWord).getD false

/-! ## Forms -/

/-- Three signs, closed by some signs and then by the others. -/
def triple (outer inner first second : Text) (sign : CodePoint) : Form := fun _ s => do
  let r ← after? [sign, sign, sign] s
  let close (front t : Text) : Option (Shape × Text) :=
    if front.isEmpty then none
    else do
      let t ← after? first t
      firstSplit? (fun front' t => do
        some (.front outer inner front.reverse front'.reverse, ← after? second t)) [] t
  firstSplit? close [] r

/-- Two asterisks, one more later, and three that close both. -/
def starsThenStar : Form := fun _ s => do
  let r ← after? ['*', '*'] s
  let front := r.takeWhile (· != char '*')
  let t ← after? ['*'] (r.drop front.length)
  if front.isEmpty || t.head? = some (char '*') then none
  else
    firstSplit? (fun front' t =>
      if front'.isEmpty then none
      else (after? ['*', '*', '*'] t).map (.back strong em front front'.reverse, ·)) [] t

/-- Two asterisks on both sides. -/
def doubleStars : Form := fun _ s => do
  let r ← after? ['*', '*'] s
  firstSplit? (fun front t =>
    if front.isEmpty then none
    else (after? ['*', '*'] t).map (.plain strong front.reverse, ·)) [] r

/-- One asterisk on both sides and none between. -/
def singleStars : Form := fun _ s => do
  let r ← after? ['*'] s
  let front := r.takeWhile (· != char '*')
  if front.isEmpty then none
  else (after? ['*'] (r.drop front.length)).map (.plain em front, ·)

/-- Two underscores, one more later in front of a word, and three that close both. -/
def linesThenLine : Form := fun before s => do
  let r ← after? ['_', '_'] s
  if isInWord before || r.head? = some (char '_') then none
  else
    let close (front t : Text) : Option (Shape × Text) :=
      if front.isEmpty || isInWord front.head? then none
      else do
        let t ← after? ['_'] t
        if t.head? = some (char '_') then none
        else
          firstSplit? (fun front' t =>
            if front'.isEmpty then none
            else do
              let t ← after? ['_', '_', '_'] t
              if isInWord t.head? then none
              else some (.back strong em front.reverse front'.reverse, t)) [] t
    firstSplit? close [] r

/-- Some underscores on both sides, outside words. -/
def lines (signs tag : Text) : Form := fun before s => do
  let r ← after? signs s
  if isInWord before || r.head? = some (char '_') then none
  else
    firstSplit? (fun front t =>
      if front.isEmpty || front.head? = some (char '_') then none
      else do
        let t ← after? signs t
        if isInWord t.head? then none else some (.plain tag front.reverse, t)) [] r

/-- The forms of emphasis by asterisks. -/
def starForms : List Form :=
  [triple strong em ['*'] ['*', '*'] '*', triple em strong ['*', '*'] ['*'] '*', starsThenStar,
    doubleStars, singleStars]

/-- The forms of emphasis by underscores. -/
def lineForms : List Form :=
  [triple strong em ['_'] ['_', '_'] '_', triple em strong ['_', '_'] ['_'] '_', linesThenLine,
    lines ['_', '_'] strong, lines ['_'] em]

/-! ## Emphasis in emphasis -/

/-- The element of a shape, with a reader for the texts in it. -/
def Shape.node (read : Text → List Node) : Shape → Node
  | .plain tag s => .element tag [] (read s)
  | .front outer inner s rest =>
      .element outer [] (.element inner [] (read s) :: read rest)
  | .back outer inner s rest =>
      .element outer [] (read s ++ [.element inner [] (read rest)])

/-- The nodes of a text in an emphasis. At each place the forms in `left` are tried, after each
other if they are found; `found` says whether one was. The text that is not emphasized comes in
reverse, and the number bounds the places and forms. -/
def readFrom (forms : List Form) :
    Nat → List Form → Bool → Text → Option CodePoint → Text → List Node
  | 0, _, _, pending, _, s => textNodes (pending.reverse ++ s)
  | _, _, _, pending, _, [] => textNodes pending.reverse
  | k + 1, [], found, pending, before, c :: s =>
      if found then readFrom forms k forms false pending before (c :: s)
      else readFrom forms k forms false (c :: pending) (some c) s
  | k + 1, form :: left, found, pending, before, c :: s =>
      match form before (c :: s) with
      | none => readFrom forms k left found pending before (c :: s)
      | some (shape, rest) =>
          let inside (s : Text) : List Node := readFrom left k left false [] none s
          textNodes pending.reverse ++ shape.node inside ::
            readFrom forms k left true [] ((c :: s)[s.length - rest.length]?) rest

/-- Emphasis in one of some forms. -/
def ofForms : List Form → Option CodePoint → Text → Option (Node × Text)
  | [], _, _ => none
  | form :: left, before, s =>
      match form before s with
      | some (shape, rest) =>
          let inside (s : Text) : List Node :=
            readFrom left (8 * (s.length + 2)) left false [] none s
          some (shape.node inside, rest)
      | none => ofForms left before s

/-- Emphasis by asterisks. -/
def stars : Pattern := fun before s =>
  pure <|
    if s.head? = some (char '*') then
      (ofForms starForms before s).bind fun (node, rest) => Pattern.found node s rest
    else none

/-- Emphasis by underscores. -/
def underscores : Pattern := fun before s =>
  pure <|
    if s.head? = some (char '_') then
      (ofForms lineForms before s).bind fun (node, rest) => Pattern.found node s rest
    else none

end Emphasis
end Stencil.Markdown
