import Mathlib.Data.Char
import Mathlib.Order.Defs.LinearOrder
import Stencil.Text.CodePoint

set_option autoImplicit false

/-! # The order of code points

Code points are known by their numbers (`toNat_inj`) and stand in the order of these.
-/

namespace Stencil.CodePoint

/-- The number of a character is not that of a surrogate. -/
theorem toNat_char_ne_lone (c : Char) (n : Fin 0x800) : (char c).toNat ≠ (lone n).toNat := by
  have hvalid : c.toNat < 0xD800 ∨ 0xDFFF < c.toNat ∧ c.toNat < 0x110000 := c.valid
  have hlt := n.isLt
  show c.toNat ≠ 0xD800 + n
  omega

theorem toNat_inj {a b : CodePoint} : a.toNat = b.toNat ↔ a = b := by
  refine ⟨fun h => ?_, congrArg toNat⟩
  cases a with
  | char c =>
      cases b with
      | char d => exact congrArg char (Char.toNat_inj.1 h)
      | lone n => exact absurd h (toNat_char_ne_lone c n)
  | lone m =>
      cases b with
      | char d => exact absurd h.symm (toNat_char_ne_lone d m)
      | lone n => exact congrArg lone (Fin.ext (Nat.add_left_cancel h))

theorem ofNat?_toNat (c : CodePoint) : ofNat? c.toNat = some c := by
  cases c with
  | char c =>
      exact dif_pos c.valid
  | lone n =>
      have hlt := n.isLt
      have hsurrogate : ¬ Nat.isValidChar (0xD800 + n) := by
        unfold Nat.isValidChar
        omega
      rw [ofNat?, toNat, dif_neg hsurrogate, dif_pos ⟨by omega, by omega⟩]
      simp

theorem ofNat_toNat (c : CodePoint) : ofNat c.toNat = c := by
  rw [ofNat, ofNat?_toNat, Option.getD_some]

theorem toNat_ofNat {n : Nat} (h : n.isValidChar) : (ofNat n).toNat = n := by
  rw [ofNat, ofNat?, dif_pos h]
  rfl

theorem toNat_ofNat_eq_or (n : Nat) : (ofNat n).toNat = n ∨ (ofNat n).toNat = 0 := by
  by_cases hvalid : n.isValidChar
  · exact .inl (toNat_ofNat hvalid)
  · by_cases hsurrogate : 0xD800 ≤ n ∧ n < 0xE000
    · rw [ofNat, ofNat?, dif_neg hvalid, dif_pos hsurrogate]
      refine .inl ?_
      show 0xD800 + (n - 0xD800) = n
      omega
    · rw [ofNat, ofNat?, dif_neg hvalid, dif_neg hsurrogate]
      exact .inr rfl

instance : LinearOrder CodePoint where
  le := (· ≤ ·)
  lt := (· < ·)
  le_refl a := Nat.le_refl a.toNat
  le_trans _ _ _ := Nat.le_trans
  le_antisymm _ _ h h' := toNat_inj.1 (Nat.le_antisymm h h')
  lt_iff_le_not_ge _ _ := Nat.lt_iff_le_and_not_ge
  le_total a b := Nat.le_total a.toNat b.toNat
  toDecidableLE := inferInstance
  toDecidableLT := inferInstance
  toDecidableEq := inferInstance

end Stencil.CodePoint
