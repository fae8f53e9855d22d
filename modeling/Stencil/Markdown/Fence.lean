import Stencil.Markdown.AttrList
import Stencil.Markdown.Line
import Stencil.Text.Word

set_option autoImplicit false

/-! # Fenced code

Code between two lines of at least three tildes or backticks, the second as long as the first.
The first line may name the language, or give attributes in braces. A fence that is never
closed is text.
-/

namespace Stencil.Markdown

open Text

namespace Fence

/-- A line that opens a block of code. -/
structure Opening where
  /-- The row of tildes or backticks. -/
  fence : Text
  /-- The attributes of the code. -/
  items : List AttrList.Item

/-- The row of tildes or backticks at the front of a line, with the rest of the line. -/
def row? (line : Text) : Option (Text × Text) :=
  match line with
  | c :: _ =>
      let row := line.takeWhile (· == c)
      if (c = '~' || c = '`') && 3 ≤ row.length then some (row, line.drop row.length) else none
  | [] => none

/-- Whether a character may stand in the name of a language. -/
def isLanguageChar (c : CodePoint) : Bool := isWord c || [char '#', '.', '+', '-'].elem c

/-- What the line after the fence says of the code: attributes in braces, or a language. -/
def readInfo? (info : Text) : Option (List AttrList.Item) :=
  let braced : Option (List AttrList.Item) := do
    let r ← after? ['\x7b'] info
    let content ← (after? ['\x7d'] r.reverse).map List.reverse
    let (items, left) := AttrList.parse content
    if left.isEmpty then some items else none
  match braced with
  | some items => some items
  | none =>
      let name := (after? ['.'] info).getD info
      let language := name.takeWhile isLanguageChar
      if (name.drop language.length).all (· == ' ') then
        some (if language.isEmpty then [] else [.class_ language])
      else none

/-- Reads a line that opens a block of code. -/
def open? (line : Text) : Option Opening := do
  let (fence, rest) ← row? line
  let items ← readInfo? (rest.dropWhile (· == ' '))
  some ⟨fence, items⟩

/-- Whether a line closes a block of code. -/
def closes (fence line : Text) : Bool :=
  match after? fence line with
  | some rest => rest.all (· == ' ')
  | none => false

/-- The lines up to the one that closes a fence, and the lines after it. -/
def upTo? (fence : Text) : List Text → Option (List Text × List Text)
  | [] => none
  | line :: lines =>
      if closes fence line then some ([], lines)
      else (upTo? fence lines).map fun (code, rest) => (line :: code, rest)

theorem length_of_upTo? {fence : Text} {lines code rest : List Text}
    (h : upTo? fence lines = some (code, rest)) : rest.length < lines.length := by
  induction lines generalizing code with
  | nil => simp [upTo?] at h
  | cons line lines ih =>
      rw [upTo?] at h
      split at h
      · simp only [Option.some.injEq, Prod.mk.injEq] at h
        obtain ⟨-, rfl⟩ := h
        simp
      · simp only [Option.map_eq_some_iff, Prod.mk.injEq] at h
        obtain ⟨⟨code', rest'⟩, hc, -, rfl⟩ := h
        have := ih hc
        simp only [List.length_cons] at *
        omega

/-- The HTML of an attribute. -/
def attr (name value : Text) : Text :=
  [char ' '] ++ name ++ "=\"".text ++ escapeValue value ++ [char '"']

/-- The HTML of an attribute that is left out when it is empty. -/
def filledAttr (name value : Text) : Text := if value.isEmpty then [] else attr name value

/-- The HTML of a block of code. The first class is the language. -/
def html (items : List AttrList.Item) (code : List Text) : Text :=
  let classes := items.filterMap fun
    | .class_ name => some name
    | .attr _ _ => none
  let attrs := Table.ofPairs <| items.filterMap fun
    | .class_ _ => none
    | .attr name value => some (name, value)
  let id := (attrs.get? "id".text).getD []
  let language := (classes.head?.map ("language-".text ++ ·)).getD []
  let others := (attrs.erase "id".text).flatMap fun (name, value) => attr name value
  let text := replaceAll ['"'] "&quot;".text (escapeCode (code.flatMap (· ++ [char '\n'])))
  "<pre".text ++ filledAttr "id".text id ++
    filledAttr "class".text (join [' '] (classes.drop 1)) ++ "><code".text ++
    filledAttr "class".text language ++ others ++ [char '>'] ++ text ++ "</code></pre>".text

/-- Puts the fenced code of a document aside. -/
def putAside (lines : List Text) : Reading (List Text) :=
  match lines with
  | [] => pure []
  | line :: lines =>
      match open? line with
      | none => do pure (line :: (← putAside lines))
      | some opening =>
          match _h : upTo? opening.fence lines with
          | none => do pure (line :: (← putAside lines))
          | some (code, rest) => do
              let mark ← store (.verbatim (html opening.items code))
              pure ([] :: mark :: [] :: (← putAside rest))
termination_by lines.length
decreasing_by
  · simp
  · simp
  · have := length_of_upTo? _h
    simp only [List.length_cons]
    omega

end Fence
end Stencil.Markdown
