import Stencil.Text.Integer
import Stencil.Text.Quoted

set_option autoImplicit false

/-! # UTF-8

Reading and writing texts as bytes. Bytes that belong to no character are dropped when a
text is read, and a text with a surrogate in it cannot be written.
-/

namespace Stencil.Text

/-- The bytes of a character. -/
def encodeChar (c : Char) : List UInt8 :=
  let n := c.toNat
  let tail (k : Nat) : UInt8 := (0x80 + n / k % 0x40).toUInt8
  if n < 0x80 then [n.toUInt8]
  else if n < 0x800 then [(0xC0 + n / 0x40).toUInt8, tail 1]
  else if n < 0x10000 then [(0xE0 + n / 0x1000).toUInt8, tail 0x40, tail 1]
  else [(0xF0 + n / 0x40000).toUInt8, tail 0x1000, tail 0x40, tail 1]

/-- The bytes of a text; a surrogate has none. -/
def utf8 (s : Text) : List UInt8 :=
  s.flatMap fun
    | .char c => encodeChar c
    | .lone _ => []

/-- The surrogates at the front of a text. -/
def frontLone : Text → List (Fin 0x800)
  | .lone n :: s => n :: frontLone s
  | _ => []

/-- The first surrogates of a text, and the number of characters before them. -/
structure Unencodable where
  position : Nat
  first : Fin 0x800
  others : List (Fin 0x800)
  deriving DecidableEq, Repr

/-- The first surrogates of a text in a row; the number counts the characters before it. -/
def unencodableFrom? (position : Nat) : Text → Option Unencodable
  | [] => none
  | .char _ :: s => unencodableFrom? (position + 1) s
  | .lone n :: s => some ⟨position, n, frontLone s⟩

/-- Why a text cannot be written, in words. -/
def Unencodable.message (u : Unencodable) : Text :=
  let place :=
    match u.others with
    | [] =>
        "character '\\u".text ++ hex 4 (0xD800 + u.first) ++ "' in position ".text ++
          decimal u.position
    | others =>
        "characters in position ".text ++ decimal u.position ++ [char '-'] ++
          decimal (u.position + others.length)
  "'utf-8' codec can't encode ".text ++ place ++ ": surrogates not allowed".text

/-- The first surrogates of a text in a row, if it holds any. -/
def unencodable? (s : Text) : Option Unencodable := unencodableFrom? 0 s

/-- The bytes that come into a file when a text is written to it: none when the text holds a
surrogate. -/
def written (s : Text) : List UInt8 := if (unencodable? s).isSome then [] else utf8 s

/-- Adds six bits to a code point, when the byte is a continuation byte. -/
def extend? (n : Nat) (b : UInt8) : Option Nat :=
  if 0x80 ≤ b.toNat ∧ b.toNat < 0xC0 then some (n * 0x40 + (b.toNat - 0x80)) else none

/-- The character of a code point of at least `least` that is not a surrogate. -/
def charOf? (least n : Nat) : Option Char :=
  if h : n.isValidChar then if least ≤ n then some (Char.ofNatAux n h) else none else none

/-- The character at the front of some bytes, with the number of bytes it takes. -/
def decodeChar? : List UInt8 → Option (Char × Nat)
  | [] => none
  | b :: bs =>
      let n := b.toNat
      if n < 0x80 then (charOf? 0 n).map (·, 1)
      else if 0xC0 ≤ n && n < 0xE0 then
        match bs with
        | b₁ :: _ => do (← charOf? 0x80 (← extend? (n - 0xC0) b₁), 2)
        | _ => none
      else if 0xE0 ≤ n && n < 0xF0 then
        match bs with
        | b₁ :: b₂ :: _ => do (← charOf? 0x800 (← extend? (← extend? (n - 0xE0) b₁) b₂), 3)
        | _ => none
      else if 0xF0 ≤ n && n < 0xF8 then
        match bs with
        | b₁ :: b₂ :: b₃ :: _ => do
            (← charOf? 0x10000 (← extend? (← extend? (← extend? (n - 0xF0) b₁) b₂) b₃), 4)
        | _ => none
      else none

/-- Reads bytes as text; the number counts the bytes of the last character that are still to
be passed over. -/
def decodeFrom : Nat → List UInt8 → Text
  | _, [] => []
  | k + 1, _ :: bs => decodeFrom k bs
  | 0, b :: bs =>
      match decodeChar? (b :: bs) with
      | some (c, size) => .char c :: decodeFrom (size - 1) bs
      | none => decodeFrom 0 bs

/-- The text that some bytes hold; bytes that belong to no character are dropped. -/
def decode (bytes : List UInt8) : Text := decodeFrom 0 bytes

end Stencil.Text
