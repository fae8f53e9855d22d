import Stencil.Text.Blank

set_option autoImplicit false

/-! # Integers

Writing integers in decimal digits, and reading one as it is written on a command line: a sign,
decimal digits of any script with single underscores between them, and blanks around the whole.
No number is read that has more than `maxDigits` decimal digits.
-/

namespace Stencil.Text

/-! ## Writing -/

/-- A natural number in decimal digits. -/
def decimal (n : Nat) : Text := (Nat.toDigits 10 n).map .char

/-- An integer in decimal digits, with a sign when it is negative. -/
def signed : Int → Text
  | .ofNat n => decimal n
  | .negSucc n => char '-' :: decimal (n + 1)

/-! ## Too many digits -/

/-- The most decimal digits that a number is read from. -/
def maxDigits : Nat := 4300

/-- The number of decimal digits of a number that has too many. -/
structure Overlong where
  digits : Nat
  deriving DecidableEq, Repr

/-- Too many digits, in words. -/
def Overlong.message (n : Overlong) : Text :=
  "Exceeds the limit (".text ++ decimal maxDigits ++
    " digits) for integer string conversion: value has ".text ++ decimal n.digits ++
    " digits; use sys.set_int_max_str_digits() to increase the limit".text

/-- Whether a number of decimal digits is too many. -/
def overlong? (digits : Nat) : Option Overlong := if maxDigits < digits then some ⟨digits⟩ else none

/-! ## Reading -/

/-- The zeros of the decimal digits beyond ASCII; nine more digits follow each. -/
def zeros : List Nat :=
  [0x660, 0x6F0, 0x7C0, 0x966, 0x9E6, 0xA66, 0xAE6, 0xB66, 0xBE6, 0xC66, 0xCE6, 0xD66, 0xDE6,
  0xE50, 0xED0, 0xF20, 0x1040, 0x1090, 0x17E0, 0x1810, 0x1946, 0x19D0, 0x1A80, 0x1A90, 0x1B50,
  0x1BB0, 0x1C40, 0x1C50, 0xA620, 0xA8D0, 0xA900, 0xA9D0, 0xA9F0, 0xAA50, 0xABF0, 0xFF10, 0x104A0,
  0x10D30, 0x11066, 0x110F0, 0x11136, 0x111D0, 0x112F0, 0x11450, 0x114D0, 0x11650, 0x116C0,
  0x11730, 0x118E0, 0x11950, 0x11C50, 0x11D50, 0x11DA0, 0x16A60, 0x16AC0, 0x16B50, 0x1D7CE,
  0x1D7D8, 0x1D7E2, 0x1D7EC, 0x1D7F6, 0x1E140, 0x1E2F0, 0x1E950, 0x1FBF0]

/-- The value of a decimal digit. -/
def digit? (c : CodePoint) : Option Nat :=
  if c.isDigit then some (c.toNat - 0x30)
  else (zeros.find? fun z => z ≤ c.toNat && c.toNat ≤ z + 9).map (c.toNat - ·)

/-- The number that digits with single underscores between them stand for; `n` is the number
read so far. -/
def naturalFrom? (n : Nat) : Text → Option Nat
  | [] => some n
  | '_' :: c :: s => (digit? c).bind fun d => naturalFrom? (10 * n + d) s
  | c :: s => (digit? c).bind fun d => naturalFrom? (10 * n + d) s

/-- The number that a nonempty row of digits stands for. -/
def natural? : Text → Option Nat
  | [] => none
  | c :: s => (digit? c).bind fun d => naturalFrom? d s

/-- The integer a text stands for, however many digits it has. -/
def integer? (s : Text) : Option Int :=
  match trim s with
  | '-' :: digits => (natural? digits).map fun n => -(n : Int)
  | '+' :: digits => (natural? digits).map fun n => (n : Int)
  | digits => (natural? digits).map fun n => (n : Int)

/-- How many digits stand at the front of a text, with single underscores between them; `none`
when an underscore is not followed by a digit. -/
def countDigits? : Text → Option Nat
  | [] => some 0
  | '_' :: c :: s => if (digit? c).isSome then (countDigits? s).map (· + 1) else none
  | c :: s =>
      if (digit? c).isSome then (countDigits? s).map (· + 1)
      else if c = '_' then none else some 0

/-- Whether what stands where an integer ought to stand begins with too many digits. -/
def overlongInteger? (s : Text) : Option Overlong :=
  let digits := match trim s with
    | '-' :: digits | '+' :: digits | digits => digits
  if digits.head? == some (char '_') then none else (countDigits? digits).bind overlong?

end Stencil.Text
