set_option autoImplicit false

/-! # Code points

The characters that texts are made of: those of Unicode, and the surrogates, which stand for
nothing by themselves. No file holds a surrogate, but a numeric reference can name one, and then
a text holds it that cannot be written to a file.
-/

namespace Stencil

/-- A character of a text: a character of Unicode, or one of the 2048 surrogates. -/
inductive CodePoint where
  | char (c : Char)
  | lone (n : Fin 0x800)
  deriving DecidableEq, Repr

instance : Coe Char CodePoint := ⟨.char⟩

instance : Inhabited CodePoint := ⟨' '⟩

namespace CodePoint

/-- The number of a code point. -/
def toNat : CodePoint → Nat
  | char c => c.toNat
  | lone n => 0xD800 + n

/-- The code point of a number, if it has one. -/
def ofNat? (n : Nat) : Option CodePoint :=
  if h : n.isValidChar then some (.char (Char.ofNatAux n h))
  else if h : 0xD800 ≤ n ∧ n < 0xE000 then some (.lone ⟨n - 0xD800, by omega⟩)
  else none

/-- The code point of a number; that of zero when it has none. -/
def ofNat (n : Nat) : CodePoint := (ofNat? n).getD '\x00'

instance : LT CodePoint := ⟨fun a b => a.toNat < b.toNat⟩

instance : LE CodePoint := ⟨fun a b => a.toNat ≤ b.toNat⟩

instance : DecidableLT CodePoint := fun a b => inferInstanceAs (Decidable (a.toNat < b.toNat))

instance : DecidableLE CodePoint := fun a b => inferInstanceAs (Decidable (a.toNat ≤ b.toNat))

/-! ## Kinds of ASCII characters -/

/-- Whether a code point is an ASCII letter. -/
def isAlpha : CodePoint → Bool
  | char c => c.isAlpha
  | lone _ => false

/-- Whether a code point is a small ASCII letter. -/
def isLower : CodePoint → Bool
  | char c => c.isLower
  | lone _ => false

/-- Whether a code point is an ASCII digit. -/
def isDigit : CodePoint → Bool
  | char c => c.isDigit
  | lone _ => false

/-- Whether a code point is an ASCII letter or digit. -/
def isAlphanum (c : CodePoint) : Bool := c.isAlpha || c.isDigit

/-- A code point with an ASCII capital made small. -/
def toLower : CodePoint → CodePoint
  | char c => .char c.toLower
  | lone n => .lone n

section

variable (c : Char)

@[simp] theorem isAlpha_char : (char c).isAlpha = c.isAlpha := rfl

@[simp] theorem isLower_char : (char c).isLower = c.isLower := rfl

@[simp] theorem isDigit_char : (char c).isDigit = c.isDigit := rfl

@[simp] theorem toLower_char : (char c).toLower = char c.toLower := rfl

end

end CodePoint
end Stencil
