import Stencil.Text.Integer
import Stencil.Html.CharRef.Names

set_option autoImplicit false

/-! # Character references

What `&amp;`, `&#60;` and `&#x3c;` stand for. Attribute values and running text read them by
different rules: `unescape` is the rule of attribute values, `ofNumberInText` and `ofNameInText`
are those of running text. By both, a decimal number with too many digits is not read.
-/

namespace Stencil.Html.CharRef

open Text

/-- The character put in the place of a number that stands for none. -/
def replacement : CodePoint := '\uFFFD'

/-- The characters meant by the numbers from 128 to 159, which are control characters only
where a number is missing from this list. -/
def legacyControls : List (Nat × CodePoint) :=
  [(0x80, '€'), (0x82, '‚'), (0x83, 'ƒ'), (0x84, '„'), (0x85, '…'), (0x86, '†'), (0x87, '‡'),
  (0x88, 'ˆ'), (0x89, '‰'), (0x8A, 'Š'), (0x8B, '‹'), (0x8C, 'Œ'), (0x8E, 'Ž'), (0x91, '‘'),
  (0x92, '’'), (0x93, '“'), (0x94, '”'), (0x95, '•'), (0x96, '–'), (0x97, '—'), (0x98, '˜'),
  (0x99, '™'), (0x9A, 'š'), (0x9B, '›'), (0x9C, 'œ'), (0x9E, 'ž'), (0x9F, 'Ÿ')]

/-- The code point of a number; the replacement character when there is none. -/
def charAt (n : Nat) : CodePoint := (CodePoint.ofNat? n).getD replacement

/-- The character a number stands for in running text, which may be a surrogate. -/
def ofNumberInText (n : Nat) : CodePoint := (legacyControls.lookup n).getD (charAt n)

/-- Whether a number stands for nothing in an attribute value: controls and code points that
are never assigned. -/
def isDropped (n : Nat) : Bool :=
  (1 ≤ n && n ≤ 8) || n == 0x0B || (0x0E ≤ n && n ≤ 0x1F) || n == 0x7F ||
    (0xFDD0 ≤ n && n ≤ 0xFDEF) || (n % 0x10000 ≥ 0xFFFE && n ≤ 0x10FFFF)

/-- The text a number stands for in an attribute value, which holds no surrogates. -/
def ofNumber (n : Nat) : Text :=
  if n = 0 || (0xD800 ≤ n && n < 0xE000) then [replacement]
  else if isDropped n then []
  else [ofNumberInText n]

/-- The text a name stands for, the name written without its semicolon. -/
def named? (name : Text) : Option Text :=
  let key := name.string
  ((markupNames.lookup key).or (otherNames.lookup key)).map String.text

/-- The text a name stands for that is written without a semicolon. -/
def bare? (name : Text) : Option Text :=
  if bareNames.contains (name.string) then named? name else none

/-- The text that the name after an ampersand stands for in running text; an unknown name
stands for itself. -/
def ofNameInText (name : Text) : Text := (named? name).getD ('&' :: name)

/-! ## References in attribute values -/

/-- The value of a hexadecimal digit. -/
def hexDigit? (c : CodePoint) : Option Nat :=
  if c.isDigit then some (c.toNat - 0x30)
  else if 'a' ≤ c ∧ c ≤ 'f' then some (c.toNat - 0x57)
  else if 'A' ≤ c ∧ c ≤ 'F' then some (c.toNat - 0x37)
  else none

/-- Whether a character is a hexadecimal digit. -/
def isHexDigit (c : CodePoint) : Bool := (hexDigit? c).isSome

/-- The number written by digits to a base. -/
def numberOf (base : Nat) (digits : Text) : Nat :=
  digits.foldl (fun n c => base * n + (hexDigit? c).getD 0) 0

/-- Whether a character may stand in a name that is looked up in an attribute value. -/
def isNameChar (c : CodePoint) : Bool :=
  !([char '\t', '\n', '\x0c', ' ', '<', '&', '#', ';'].elem c)

/-- The text for a name without a semicolon: the longest bare name at its front is replaced,
and an unknown name stays as it is. `k` bounds the length of the names tried. -/
def expandBare (name : Text) : Nat → Text
  | 0 | 1 => char '&' :: name
  | k + 2 =>
      match bare? (name.take (k + 2)) with
      | some value => value ++ name.drop (k + 2)
      | none => expandBare name (k + 1)

/-- The text for a name and whether a semicolon closes it. -/
def expandName (name : Text) (closed : Bool) : Text :=
  match if closed then named? name else none with
  | some value => value
  | none => expandBare name name.length ++ if closed then [char ';'] else []

/-- Whether a semicolon stands at the front of a text. -/
def closing (s : Text) : Bool := s.head? == some (char ';')

/-- The reference at the front of what follows an ampersand: the text it stands for and the
number of characters it takes. -/
def reference? (s : Text) : Option (Text × Nat) :=
  match s with
  | '#' :: r =>
      let digits := r.takeWhile CodePoint.isDigit
      if !digits.isEmpty then
        let size := 1 + digits.length
        some (ofNumber (numberOf 10 digits), size + (closing (s.drop size)).toNat)
      else
        match r with
        | x :: t =>
            let hexDigits := t.takeWhile isHexDigit
            if (x = 'x' || x = 'X') && !hexDigits.isEmpty then
              let size := 2 + hexDigits.length
              some (ofNumber (numberOf 16 hexDigits), size + (closing (s.drop size)).toNat)
            else none
        | [] => none
  | _ =>
      let name := (s.take 32).takeWhile isNameChar
      if name.isEmpty then none
      else
        let closed := closing (s.drop name.length)
        some (expandName name closed, name.length + closed.toNat)

/-- Replaces the references of an attribute value; the number counts the characters of the last
reference that are still to be passed over. -/
def unescapeFrom : Nat → Text → Text
  | _, [] => []
  | k + 1, _ :: s => unescapeFrom k s
  | 0, '&' :: s =>
      match reference? s with
      | some (value, size) => value ++ unescapeFrom size s
      | none => char '&' :: unescapeFrom 0 s
  | 0, c :: s => c :: unescapeFrom 0 s

/-- An attribute value with its references replaced by what they stand for. -/
def unescape (s : Text) : Text := unescapeFrom 0 s

/-- The first decimal number of an attribute value that has too many digits. -/
def overlongIn? : Text → Option Overlong
  | [] => none
  | c :: s =>
      if startsWith (c :: s) ['&', '#'] then
        (overlong? ((s.drop 1).takeWhile CodePoint.isDigit).length).or (overlongIn? s)
      else overlongIn? s

end Stencil.Html.CharRef
