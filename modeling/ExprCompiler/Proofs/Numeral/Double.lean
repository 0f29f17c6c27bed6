import ExprCompiler.Numeral.Binary
import Mathlib

/-!
# Doubles that are numbers

Rounding a rational to a double never gives a NaN: packing a number into 64 bits gives a number,
and so do bits whose exponent field is not full.
-/

namespace ExprCompiler.Numeral

open Float.Model Float.Model.UnpackedFloat

/-! ## Packing -/

theorem isNaN_unpack_packComponents {sign : Sign} {e : BitVec 11} {m : BitVec 52}
    (h : e ≠ -1#11 ∨ m = 0#52) :
    (UnpackedFloat.unpack .binary64 (packComponents .binary64 sign e m)).isNaN = false := by
  simp only [UnpackedFloat.unpack, unpackExponent_packComponents, unpackMantissa_packComponents]
  split
  · rename_i he
    rw [if_pos (h.resolve_left fun hne ↦ hne he)]
    rfl
  · split
    · split
      · rfl
      · rfl
    · rfl

/-- Packing makes no NaN of a number, and no number of a NaN. -/
theorem isNaN_pack (u : UnpackedFloat) : (Float.Model.pack u).isNaN = u.isNaN := by
  change (UnpackedFloat.unpack .binary64 (UnpackedFloat.pack .binary64 u)).isNaN = u.isNaN
  cases u with
  | notANumber => rfl
  | infinity s => exact isNaN_unpack_packComponents (.inr rfl)
  | zero s => exact isNaN_unpack_packComponents (.inr rfl)
  | finite s m e hm =>
      simp only [UnpackedFloat.pack]
      split
      · exact isNaN_unpack_packComponents (.inr rfl)
      · rename_i hfits
        split
        · refine isNaN_unpack_packComponents (.inl fun he ↦ hfits ?_)
          have := congrArg BitVec.toNat he
          simp only [BitVec.toNat_ofNat, BitVec.neg_one_eq_allOnes, BitVec.toNat_allOnes] at this
          omega
        · exact isNaN_unpack_packComponents (.inl (by decide))

/-- Negation neither makes nor removes a NaN. -/
theorem isNaN_neg (x : Float) : (-x).isNaN = x.isNaN := by
  change (Float.Model.pack x.toModel.unpack.neg).isNaN = x.toModel.unpack.isNaN
  rw [isNaN_pack]
  cases x.toModel.unpack <;> rfl

/-- Bits below those of infinity are those of a number. -/
theorem isNaN_ofBits {n : Nat} (h : n < 2047 * leadingBit) :
    (Float.ofBits n.toUInt64).isNaN = false := by
  change (Float.Model.pack (UnpackedFloat.unpack .binary64 n.toUInt64.toBitVec)).isNaN = false
  rw [isNaN_pack]
  have he : @unpackExponent .binary64 n.toUInt64.toBitVec ≠ -1#11 := by
    intro he
    have := congrArg BitVec.toNat he
    simp [unpackExponent, leadingBit, Nat.shiftRight_eq_div_pow] at this h
    omega
  simp only [UnpackedFloat.unpack, he, if_false]
  split
  · split
    · rfl
    · rfl
  · rfl

/-! ## Rounding -/

theorem isNaN_assemble (m : Nat) (e : Int) : (assemble m e).isNaN = false := by
  rw [assemble]
  split
  · decide +kernel
  · rename_i h
    exact isNaN_ofBits (Nat.lt_of_not_le h)

theorem isNaN_nearestQuotient (n d : Nat) : (nearestQuotient n d).isNaN = false := by
  rw [nearestQuotient]
  split
  · decide +kernel
  · exact isNaN_assemble _ _

/-- The double nearest to a rational is a number or an infinity. -/
theorem isNaN_nearest (q : Rat) : (nearest q).isNaN = false := by
  rw [nearest]
  split
  · rw [isNaN_neg, isNaN_nearestQuotient]
  · exact isNaN_nearestQuotient _ _

end ExprCompiler.Numeral
