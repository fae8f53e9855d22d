import Stencil.Markdown.Span.Basic
import Stencil.Text.Case

set_option autoImplicit false

/-! # Links and images

A link is a text in brackets with a target in parentheses, or with the name of a reference in
brackets, or that is itself the name of a reference; with an exclamation mark in front it is an
image. Addresses in angle brackets are links too, and a name behind a circumflex is a footnote.
-/

namespace Stencil.Markdown

open Text

namespace Link

/-! ## Texts in brackets -/

/-- The text up to the bracket that closes the current one and the text after it. `depth`
counts the open brackets, less one, and `front` is the text so far in reverse. -/
def closeFrom? (front : Text) : Nat → Text → Option (Text × Text)
  | _, [] => none
  | 0, ']' :: s => some (front.reverse, s)
  | depth + 1, ']' :: s => closeFrom? (']' :: front) depth s
  | depth, '[' :: s => closeFrom? ('[' :: front) (depth + 1) s
  | depth, c :: s => closeFrom? (c :: front) depth s

/-- The text in the brackets at the front of a text, and the text after them. -/
def bracketed? (s : Text) : Option (Text × Text) := do
  closeFrom? [] 0 (← after? ['['] s)

/-! ## Targets -/

/-- A target with the title, if there is one. -/
structure Target where
  address : Text
  title : Option Text
  deriving DecidableEq, Repr

/-- A quote that was opened, the index after it, and the index after the last quote that may
close it. -/
structure Quote where
  sign : CodePoint
  start : Nat
  stop : Option Nat
  deriving DecidableEq, Repr

/-- What is known while the parenthesis is looked for that closes a target: the open
parentheses; how many of them were open at the first quote, less those closed since; the first
quote and the first quote of the other kind; the last character that is not a space; and the
index after the parenthesis that closes the target if the first quote opens no title. -/
structure Scan where
  depth : Nat
  backup : Nat
  quote : Option Quote
  other : Option Quote
  last : Option CodePoint
  fallback : Option Nat

namespace Scan

/-- Nothing read after the opening parenthesis. -/
def start : Scan := ⟨1, 1, none, none, none, none⟩

/-- Whether a quote was closed by the last character. -/
def closed (scan : Scan) (quote : Option Quote) : Bool :=
  match quote with
  | some quote => quote.stop.isSome && scan.last == some quote.sign
  | none => false

/-- Takes a quote at an index into account. -/
def addQuote (scan : Scan) (c : CodePoint) (index : Nat) : Scan :=
  match scan.quote, scan.other with
  | none, _ =>
      { scan with depth := 1, backup := scan.depth, quote := some ⟨c, index + 1, none⟩ }
  | some quote, other =>
      if c = quote.sign then { scan with quote := some { quote with stop := some (index + 1) } }
      else
        match other with
        | none => { scan with other := some ⟨c, index + 1, none⟩ }
        | some other => { scan with other := some { other with stop := some (index + 1) } }

/-- Takes a closing parenthesis at an index into account. -/
def addClose (scan : Scan) (index : Nat) : Scan :=
  if scan.closed scan.quote || scan.closed scan.other then { scan with depth := 0 }
  else if scan.quote.isNone then { scan with depth := scan.depth - 1 }
  else if scan.backup = 1 then { scan with backup := 0, fallback := some (index + 1) }
  else { scan with backup := scan.backup - 1 }

/-- Takes the character at an index into account. -/
def add (scan : Scan) (c : CodePoint) (index : Nat) : Scan :=
  if c = '(' then
    if scan.quote.isNone then { scan with depth := scan.depth + 1 }
    else { scan with backup := scan.backup - 1 }
  else if c = ')' then scan.addClose index
  else if c = '"' || c = '\'' then scan.addQuote c index
  else scan

/-- The address in front of a quote, and the title in it. -/
def titled (s : Text) (quote : Quote) : Text × Option Text :=
  let title := (s.take ((quote.stop.getD 0) - 1)).drop quote.start
  (s.take (quote.start - 1), some title)

/-- The address and the title of a target that is closed in front of an index. -/
def split (scan : Scan) (s : Text) (index : Nat) : Text × Option Text :=
  match scan.quote, scan.other with
  | some quote, other =>
      if scan.closed (some quote) then titled s quote
      else
        match other with
        | some other =>
            if scan.closed (some other) then titled s other else (s.take (index - 1), none)
        | none => (s.take (index - 1), none)
  | none, _ => (s.take (index - 1), none)

/-- The target at the front of `s`, read up to an index with the rest at hand: the address,
the title, and the index after the target. -/
def run (s : Text) (scan : Scan) (index : Nat) : Text → Option (Text × Option Text × Nat)
  | [] =>
      if scan.backup = 0 then
        scan.fallback.map fun stop => (s.take (stop - 1), none, stop)
      else none
  | c :: rest =>
      let next := scan.add c index
      if next.depth = 0 then
        let (address, title) := next.split s (index + 1)
        some (address, title, index + 1)
      else run s { next with last := if c = ' ' then next.last else some c } (index + 1) rest

end Scan

/-- A text without the quotes around it. -/
def dequote (s : Text) : Text :=
  match s with
  | q :: r => if (q = '"' || q = '\'') && s.getLast? = some q then r.dropLast else s
  | [] => s

/-- A title that was read, without quotes and line breaks. -/
def cleanTitle (desk : Desk) (s : Text) : Text :=
  (dequote (desk.wordsOf (trim s))).map fun c => if isBlank c then ' ' else c

/-- The address in angle brackets at the front of a text, the title in quotes after it, and what
follows the closing parenthesis. -/
def angled? (s : Text) : Option (Text × Option Text × Text) := do
  let (address, rest) ← cut? ['>'] (← after? ['<'] s)
  if address.elem (char '<') then none
  else
    match trimLeft rest with
    | ')' :: rest => some (address, none, rest)
    | q :: t =>
        if q = '"' || q = '\'' then do
          let (title, rest) ← cut? [q] t
          some (address, some title, ← after? [')'] (trimLeft rest))
        else none
    | [] => none

/-- The target in parentheses at the front of a text, and the text after them. -/
def target? (desk : Desk) (s : Text) : Option (Target × Text) := do
  let r := trimLeft (← after? ['('] s)
  let (address, title, rest) ←
    match angled? r with
    | some found => some found
    | none =>
        (Scan.run r .start 0 r).map fun (address, title, stop) => (address, title, r.drop stop)
  some (⟨trim (desk.wordsOf address), title.map (cleanTitle desk)⟩, rest)

/-! ## Elements -/

/-- A link to a target. -/
def link (target : Target) (s : Text) : Node :=
  let attrs := [("href".text, target.address)] ++
    (target.title.map (("title".text, ·))).toList
  .element ['a'] attrs (textNodes s)

/-- The image at a target. -/
def image (desk : Desk) (target : Target) (s : Text) : Node :=
  let attrs := [("src".text, target.address)] ++
    (target.title.map (("title".text, ·))).toList ++ [("alt".text, desk.wordsOf s)]
  .element "img".text attrs []

/-- How a pattern for links or images begins: what stands in front of the bracket, and the
element for a target and a text. -/
structure Kind where
  opening : Text
  node : Desk → Target → Text → Node

/-- Links. -/
def links : Kind := ⟨[], fun _ => link⟩

/-- Images. -/
def images : Kind := ⟨['!'], image⟩

/-- The text in brackets of a link or an image, and the text after them. -/
def Kind.text? (kind : Kind) (before : Option CodePoint) (s : Text) : Option (Text × Text) :=
  if kind.opening.isEmpty && before = some (char '!') then none
  else (after? kind.opening s).bind bracketed?

/-! ## Patterns -/

/-- A link or an image with a target in parentheses. -/
def inline (kind : Kind) : Pattern := fun before s => do
  let desk ← get
  pure do
    let (text, rest) ← kind.text? before s
    let (target, rest) ← target? desk rest
    Pattern.found (kind.node desk target text) s rest

/-- The name of a reference in brackets, maybe after a blank, and the text after them. -/
def name? (s : Text) : Option (Text × Text) := do
  let s := match s with
    | c :: r => if isBlank c then r else s
    | [] => s
  cut? [']'] (← after? ['['] s)

/-- A text with a space for each run of blanks; `within` says that the text stands in such a
run. -/
def joinBlanks (within : Bool) : Text → Text
  | [] => []
  | c :: s =>
      if isBlank c then if within then joinBlanks true s else char ' ' :: joinBlanks true s
      else c :: joinBlanks false s

/-- The target that references have for a name. -/
def Target.ofName? (desk : Desk) (name : Text) : Option Target :=
  (desk.references.lookup (joinBlanks false (lower name))).map fun (address, title) =>
    ⟨address, title⟩

/-- A link or an image with the name of a reference behind it, in brackets; without a name, its
text is the name. A name that is not known is passed over. -/
def named (kind : Kind) : Pattern := fun before s => do
  let desk ← get
  pure do
    let (text, rest) ← kind.text? before s
    let (name, rest) ← name? rest
    match Target.ofName? desk (if name.isEmpty then text else name) with
    | some target => Pattern.found (kind.node desk target text) s rest
    | none => some ⟨none, s.length - rest.length⟩

/-- A link or an image whose text is the name of a reference. A name that is not known is
passed over. -/
def short (kind : Kind) : Pattern := fun before s => do
  let desk ← get
  pure do
    let (text, rest) ← kind.text? before s
    match Target.ofName? desk text with
    | some target => Pattern.found (kind.node desk target text) s rest
    | none => some ⟨none, s.length - rest.length⟩

/-! ## Addresses in angle brackets -/

/-- The schemes of addresses, in lower case. -/
def schemes : List Text := ["http://", "https://", "ftp://", "ftps://"].map String.text

/-- Whether a text begins with a scheme. -/
def hasScheme (s : Text) : Bool :=
  schemes.any fun scheme => (s.take scheme.length).map CodePoint.toLower = scheme

/-- An address in angle brackets. -/
def address : Pattern := fun _ s => do
  let desk ← get
  pure do
    let (inside, rest) ← cut? ['>'] (← after? ['<'] s)
    if inside.elem (char '<') || !hasScheme inside then none
    else
      let html := printAll (desk.resolve inside)
      Pattern.found (.element ['a'] [("href".text, desk.wordsOf inside)] [.verbatim html]) s rest

/-- A character written as a reference by its number. -/
def asNumber (c : CodePoint) : Text := [char '&', char '#'] ++ decimal c.toNat ++ [char ';']

/-- The names of characters that are not written by their number. -/
def asName (c : CodePoint) : Text :=
  if c = '&' then "&amp;".text
  else if c = '"' then "&quot;".text
  else asNumber c

/-- Whether a text is a mail address: something on both sides of the last at sign, and no
space. -/
def isMail (s : Text) : Bool :=
  let host := (s.reverse.takeWhile (· != char '@')).reverse
  let user := s.take (s.length - host.length - 1)
  !host.isEmpty && !user.isEmpty && s.elem (char '@') && !s.elem (char ' ') && !user.elem (char '!')

/-- A mail address in angle brackets; it is written by the numbers of its characters. -/
def mail : Pattern := fun _ s => do
  let desk ← get
  pure do
    let (inside, rest) ← cut? ['>'] (← after? ['<'] s)
    if inside.elem (char '<') || !isMail inside then none
    else
      let scheme := "mailto:".text
      let words := desk.wordsOf inside
      let email := (after? scheme words).getD words
      let attrs := [("href".text, (scheme ++ email).flatMap asNumber)]
      Pattern.found (.element ['a'] attrs [.verbatim (email.flatMap asName)]) s rest

/-! ## Footnotes -/

/-- The element for a reference to a footnote: its name, its number, and how often it was
referred to before. -/
def citation (name : Text) (number earlier : Nat) : Node :=
  let again := if earlier = 0 then [] else decimal (earlier + 1)
  .element "sup".text [("id".text, "fnref".text ++ again ++ [char ':'] ++ name)]
    [.element ['a']
      [("href".text, "#fn:".text ++ name), ("class".text, "footnote-ref".text)]
      [.verbatim (decimal number)]]

/-- A reference to a footnote. -/
def footnote : Pattern := fun _ s => do
  let desk ← get
  match (after? ['[', '^'] s).bind (cut? [']']) with
  | some (name, rest) =>
      if desk.footnotes.has name then do
        set { desk with citations := desk.citations ++ [name] }
        let order := (desk.citations ++ [name]).eraseDups
        let node := citation name (order.idxOf name + 1) (desk.citations.count name)
        pure (Pattern.found node s rest)
      else pure none
  | none => pure none

end Link
end Stencil.Markdown
