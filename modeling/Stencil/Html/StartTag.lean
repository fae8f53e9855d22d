import Stencil.Text.Blank
import Stencil.Text.Case
import Stencil.Html.CharRef

set_option autoImplicit false

/-! # Start tags

How a start tag is read: a name, then attributes with quoted, bare or missing values, then `>`
or `/>`. Reading is lenient, so a quote that is never closed ends the value before it. Only a
number with too many digits in a value is never read.
-/

namespace Stencil.Html

open Text

/-- A start tag as it is written: the name, the attributes in order, repeated ones included,
and whether it ends in `/>`. -/
structure StartTag where
  name : Text
  attrs : List (Text × Text)
  selfClosing : Bool
  deriving DecidableEq, Repr

namespace StartTag

/-- Whether a character may stand in the name of a tag. -/
def isNameChar (c : CodePoint) : Bool :=
  !([char '\t', '\n', '\r', '\x0c', ' ', '/', '>', '\x00'].elem c)

/-- Whether a character may stand in the name of an attribute, the first place excepted. -/
def isAttrNameChar (c : CodePoint) : Bool := !(isBlank c || c == '/' || c == '=' || c == '>')

/-- Whether a character may begin the name of an attribute. -/
def opensAttrName (c : CodePoint) : Bool := !(isBlank c || c == '/' || c == '>')

/-- Whether a character may stand in a value without quotes. -/
def isBareChar (c : CodePoint) : Bool := !(isBlank c || c == '>')

/-- Whether a character is a quote. -/
def isQuote (c : CodePoint) : Bool := c == '\'' || c == '"'

/-- Whether an attribute may begin right after a character. -/
def endsPiece (c : CodePoint) : Bool := isBlank c || isQuote c || c == '/'

/-- Passes over blanks and slashes, but not over the slash of `/>`. -/
def skipGap : Text → Text
  | [] => []
  | '/' :: '>' :: s => char '/' :: char '>' :: s
  | c :: s => if isBlank c || c == '/' then skipGap s else c :: s

theorem length_skipGap_le (s : Text) : (skipGap s).length ≤ s.length := by
  fun_induction skipGap s <;> simp_all
  omega

/-- The value at the front of a text, after the equals sign and blanks: the value as written,
whether an attribute may follow at once, and the rest. `doubled` says that two or more equals
signs were read, `spaced` what stands after them. -/
def readValueAfter (doubled : Bool) (spaced : Text) : Option (Text × Bool × Text) :=
  match trimLeft spaced with
  | c :: s =>
      if isQuote c then
        match cut? [c] s with
        | some (value, rest) => some (value, true, rest)
        | none =>
            if (trimLeft spaced).length < spaced.length then some ([], false, spaced)
            else if doubled then
              some (char '=' :: (c :: s).takeWhile isBareChar, false, (c :: s).dropWhile isBareChar)
            else none
      else some ((c :: s).takeWhile isBareChar, false, (c :: s).dropWhile isBareChar)
  | [] => some ([], false, [])

/-- The value of an attribute whose name was just read. -/
def readValue? (s : Text) : Option (Text × Bool × Text) :=
  match trimLeft s with
  | '=' :: r => readValueAfter (r.head? == some (char '=')) (r.dropWhile (· == '='))
  | _ => none

/-- The attribute at the front of a text: its name and its value as written, whether another may
follow at once, and the rest. -/
def readAttr? (s : Text) : Option ((Text × Text) × Bool × Text) :=
  match s with
  | [] => none
  | c :: s =>
      if opensAttrName c then
        let name := c :: s.takeWhile isAttrNameChar
        let after := s.dropWhile isAttrNameChar
        match readValue? after with
        | some (value, ready, rest) => some ((lower name, value), ready, rest)
        | none => some ((lower name, []), (name.getLast?.map isQuote).getD false, after)
      else none

theorem length_dropWhile_le (p : CodePoint → Bool) (s : Text) : (s.dropWhile p).length ≤ s.length :=
  (List.dropWhile_sublist p).length_le

theorem length_of_readValueAfter {d : Bool} {s v r : Text} {b : Bool}
    (h : readValueAfter d s = some (v, b, r)) : r.length ≤ s.length := by
  have ht : (trimLeft s).length ≤ s.length := length_dropWhile_le _ _
  unfold readValueAfter at h
  split at h
  · rename_i c t hs
    rw [hs] at ht h
    have hb := length_dropWhile_le isBareChar (c :: t)
    split at h
    · split at h
      · rename_i value rest hc
        have hl := congrArg List.length (eq_of_cut? hc)
        simp only [Option.some.injEq, Prod.mk.injEq] at h
        obtain ⟨-, -, rfl⟩ := h
        simp at hl ht
        omega
      · split at h
        · simp only [Option.some.injEq, Prod.mk.injEq] at h
          obtain ⟨-, -, rfl⟩ := h
          exact Nat.le_refl _
        · split at h
          · simp only [Option.some.injEq, Prod.mk.injEq] at h
            obtain ⟨-, -, rfl⟩ := h
            omega
          · simp at h
    · simp only [Option.some.injEq, Prod.mk.injEq] at h
      obtain ⟨-, -, rfl⟩ := h
      omega
  · simp only [Option.some.injEq, Prod.mk.injEq] at h
    obtain ⟨-, -, rfl⟩ := h
    simp

theorem length_of_readValue? {s v r : Text} {b : Bool} (h : readValue? s = some (v, b, r)) :
    r.length ≤ s.length := by
  have ht : (trimLeft s).length ≤ s.length := length_dropWhile_le _ _
  unfold readValue? at h
  split at h
  · rename_i t hs
    have := length_of_readValueAfter h
    have := length_dropWhile_le (· == '=') t
    rw [hs] at ht
    simp at ht
    omega
  · simp at h

theorem length_of_readAttr? {s r : Text} {a : Text × Text} {b : Bool}
    (h : readAttr? s = some (a, b, r)) : r.length < s.length := by
  unfold readAttr? at h
  split at h
  · simp at h
  · rename_i c t
    have hd := length_dropWhile_le isAttrNameChar t
    split at h
    · dsimp only at h
      split at h
      · rename_i value ready rest hv
        have := length_of_readValue? hv
        simp only [Option.some.injEq, Prod.mk.injEq] at h
        obtain ⟨-, -, rfl⟩ := h
        simp
        omega
      · simp only [Option.some.injEq, Prod.mk.injEq] at h
        obtain ⟨-, -, rfl⟩ := h
        simp
        omega
    · simp at h

/-- The attributes at the front of a text, their values as written, and the rest; `ready` says
whether one may begin at once, without a gap. -/
def readAttrs (ready : Bool) (s : Text) : List (Text × Text) × Text :=
  let gap := skipGap s
  if ready || gap.length < s.length then
    match _h : readAttr? gap with
    | some (attr, ready, rest) =>
        let (attrs, rest) := readAttrs ready rest
        (attr :: attrs, rest)
    | none => ([], gap)
  else ([], gap)
termination_by s.length
decreasing_by
  have := length_of_readAttr? _h
  have := length_skipGap_le s
  simp only [gap] at *
  omega

/-- What a text turns out to be that begins like a start tag: a tag, running text up to some
point, the front of a tag that is cut off by the end of the text, or one of the first two with a
number in a value that has too many digits. -/
inductive Reading where
  | tag (tag : StartTag) (rest : Text)
  | text (rest : Text)
  | unfinished
  | overlong (n : Overlong)
  deriving DecidableEq, Repr

/-- What a text turns out to be whose attributes are read, the references in them replaced. -/
def Reading.ofAttrs (attrs : List (Text × Text)) (reading : List (Text × Text) → Reading) :
    Reading :=
  match attrs.findSome? fun (_, value) => CharRef.overlongIn? value with
  | some n => .overlong n
  | none => reading (attrs.map fun (name, value) => (name, CharRef.unescape value))

/-- Reads a start tag from what follows its `<`. -/
def read (s : Text) : Reading :=
  let name := s.takeWhile isNameChar
  let ready := (name.getLast?.map endsPiece).getD false
  let (attrs, rest) := readAttrs ready (s.dropWhile isNameChar)
  match rest with
  | '>' :: rest => .ofAttrs attrs fun attrs => .tag ⟨lower name, attrs, false⟩ rest
  | '/' :: '>' :: rest => .ofAttrs attrs fun attrs => .tag ⟨lower name, attrs, true⟩ rest
  | [] => .unfinished
  | c :: _ =>
      if c.isAlpha || c == '=' || c == '/' then .unfinished else .ofAttrs attrs fun _ => .text rest

end StartTag
end Stencil.Html
