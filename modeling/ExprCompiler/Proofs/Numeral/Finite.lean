import ExprCompiler.Proofs.Numeral.Rounding
import Mathlib

/-!
# Finite doubles

A finite double is told by its sign, mantissa and exponent, whether they are read off its bits or
come from the model of its arithmetic. Main statements: a double is the one that is assembled from
its parts (`Numeral.eq_assemble`), and zero and one are neutral (`Numeral.zero_add_add`,
`Numeral.one_mul_mul`).
-/

namespace ExprCompiler.Numeral

open Float.Model Float.Model.UnpackedFloat

/-! ## Bits -/

def signOf (negative : Bool) : Sign := if negative then .negative else .positive

theorem toNat_unpackMantissa (w : BitVec 64) :
    (@unpackMantissa .binary64 w).toNat = w.toNat % leadingBit := by
  simp [unpackMantissa, leadingBit]

theorem toNat_unpackExponent (w : BitVec 64) :
    (@unpackExponent .binary64 w).toNat = w.toNat / leadingBit % 2048 := by
  simp [unpackExponent, leadingBit, Nat.shiftRight_eq_div_pow]

theorem ofBitVec_unpackSign (w : BitVec 64) :
    Sign.ofBitVec (@unpackSign .binary64 w) = signOf (w.toNat / signedBound == 1) := by
  have hsign : (@unpackSign .binary64 w).toNat = w.toNat / signedBound := by
    have := w.isLt
    simp [unpackSign, signedBound, Nat.shiftRight_eq_div_pow]
    omega
  rw [← hsign]
  rcases BitVec.eq_zero_or_eq_one (@unpackSign .binary64 w) with h | h
  · rw [h]
    rfl
  · rw [h]
    rfl

/-- The number that sign, mantissa and exponent make up in the model of arithmetic. -/
def Binary.unpacked (b : Binary) : UnpackedFloat :=
  if h : 0 < b.mantissa then .finite (signOf b.negative) b.mantissa b.exponent h
  else .zero (signOf b.negative)

/-- Whether mantissa and exponent are those of a finite double, zero among them. -/
structure Binary.IsFinite (b : Binary) : Prop where
  canonical : 0 < b.mantissa → b.Canonical
  bound : b.exponent ≤ 971

/-- Bits with an exponent field that is not full are those of the number with these parts. -/
theorem unpack_eq_unpacked {w : BitVec 64} (hfull : w.toNat / leadingBit % 2048 ≠ 2047) :
    UnpackedFloat.unpack .binary64 w =
      Binary.unpacked
        (if w.toNat / leadingBit % 2048 = 0 then
          ⟨w.toNat / signedBound == 1, w.toNat % leadingBit, -1074⟩
        else
          ⟨w.toNat / signedBound == 1, leadingBit + w.toNat % leadingBit,
            Int.ofNat (w.toNat / leadingBit % 2048) - 1075⟩) := by
  have hfield := toNat_unpackExponent w
  have hfraction := toNat_unpackMantissa w
  have hones : @unpackExponent .binary64 w ≠ -1#11 := by
    intro h
    rw [h] at hfield
    exact hfull hfield.symm
  simp only [UnpackedFloat.unpack, hones, if_false, ofBitVec_unpackSign, hfield]
  by_cases hzero : w.toNat / leadingBit % 2048 = 0
  · have hexponent : @unpackExponent .binary64 w = 0#11 := by
      apply BitVec.eq_of_toNat_eq
      rw [hfield, hzero]
      rfl
    rw [if_pos hexponent, if_pos hzero]
    by_cases hm : w.toNat % leadingBit = 0
    · have hmantissa : @unpackMantissa .binary64 w = 0#52 := by
        apply BitVec.eq_of_toNat_eq
        rw [hfraction, hm]
        rfl
      rw [dif_pos hmantissa, Binary.unpacked, dif_neg (by simp [hm])]
    · have hmantissa : @unpackMantissa .binary64 w ≠ 0#52 := by
        intro h
        rw [h] at hfraction
        exact hm hfraction.symm
      rw [dif_neg hmantissa, Binary.unpacked, dif_pos (Nat.pos_of_ne_zero hm)]
      simp only [hfraction, hzero]
      rfl
  · have hexponent : @unpackExponent .binary64 w ≠ 0#11 := by
      intro h
      rw [h] at hfield
      exact hzero hfield.symm
    have hmantissa : (1#1 ++ @unpackMantissa .binary64 w).toNat =
        leadingBit + w.toNat % leadingBit := by
      rw [BitVec.toNat_append, ← Nat.shiftLeft_add_eq_or_of_lt (BitVec.isLt _), hfraction]
      rfl
    rw [if_neg hexponent, if_neg hzero, Binary.unpacked, dif_pos (by simp [leadingBit])]
    simp only [hmantissa]
    rfl

/-- The parts that are read off the bits of a double are those of its arithmetic. -/
theorem unpack_of_ofFloat? {x : Float} {b : Binary} (h : Binary.ofFloat? x = some b) :
    x.toModel.unpack = b.unpacked ∧ b.IsFinite := by
  obtain ⟨w, hw⟩ : ∃ w, w = x.toModel.toBits.toBitVec := ⟨_, rfl⟩
  have hbits : x.toBits.toNat = w.toNat := by
    rw [hw]
    rfl
  have hunpack : x.toModel.unpack = UnpackedFloat.unpack .binary64 w := by
    rw [hw]
    rfl
  have hmod : w.toNat % leadingBit < leadingBit := Nat.mod_lt _ (by decide)
  have hfield : w.toNat / leadingBit % 2048 < 2048 := Nat.mod_lt _ (by decide)
  simp only [Binary.ofFloat?, signBit, hbits, beq_iff_eq] at h
  split_ifs at h with hfull hzero
  · obtain rfl := Option.some.inj h
    refine ⟨?_, fun hpos ↦ ⟨hpos, ?_, le_rfl, .inl rfl⟩, show (-1074 : Int) ≤ 971 by decide⟩
    · rw [hunpack, unpack_eq_unpacked hfull, if_pos hzero]
    · change w.toNat % leadingBit < 2 * leadingBit
      omega
  · obtain rfl := Option.some.inj h
    refine ⟨?_, fun hpos ↦ ⟨hpos, ?_, ?_, .inr (Nat.le_add_right _ _)⟩, ?_⟩
    · rw [hunpack, unpack_eq_unpacked hfull, if_neg hzero]
    · change leadingBit + w.toNat % leadingBit < 2 * leadingBit
      omega
    · change -1074 ≤ ((w.toNat / leadingBit % 2048 : Nat) : Int) - 1075
      omega
    · change ((w.toNat / leadingBit % 2048 : Nat) : Int) - 1075 ≤ 971
      omega

/-- A double that is neither a NaN nor an infinity has an exact content. -/
theorem exists_ofFloat? {x : Float} (hnan : x.isNaN = false) (hinf : x.isInf = false) :
    ∃ b, Binary.ofFloat? x = some b := by
  obtain ⟨w, hw⟩ : ∃ w, w = x.toModel.toBits.toBitVec := ⟨_, rfl⟩
  have hbits : x.toBits.toNat = w.toNat := by
    rw [hw]
    rfl
  simp only [Binary.ofFloat?, hbits, beq_iff_eq]
  split_ifs with hfull hzero
  · have hones : @unpackExponent .binary64 w = -1#11 := by
      apply BitVec.eq_of_toNat_eq
      rw [toNat_unpackExponent, hfull]
      rfl
    change (UnpackedFloat.unpack .binary64 x.toModel.toBits.toBitVec).isNaN = false at hnan
    change (UnpackedFloat.unpack .binary64 x.toModel.toBits.toBitVec).isInf = false at hinf
    rw [← hw] at hnan hinf
    simp only [UnpackedFloat.unpack, hones, if_true] at hnan hinf
    split_ifs at hnan hinf
    · cases hinf
    · cases hnan
  · exact ⟨_, rfl⟩
  · exact ⟨_, rfl⟩

theorem isInf_eq_false {x : Float} {b : Binary} (h : Binary.ofFloat? x = some b) :
    x.isInf = false := by
  change x.toModel.unpack.isInf = false
  rw [(unpack_of_ofFloat? h).1, Binary.unpacked]
  split_ifs
  · rfl
  · rfl

/-- Bits with an exponent field that is not full are kept. -/
theorem toBits_ofBits {w : UInt64} (hfull : w.toNat / leadingBit % 2048 ≠ 2047) :
    (Float.ofBits w).toBits = w := by
  have hnan : @isNaNBits .binary64 w.toBitVec = false := by
    rw [isNaNBits, decide_eq_false_iff_not]
    rintro ⟨hones, -⟩
    have hfield := toNat_unpackExponent w.toBitVec
    rw [hones] at hfield
    exact hfull hfield.symm
  have hpack := @pack_unpack .binary64 w.toBitVec (by decide)
  rw [hnan, if_neg Bool.false_ne_true] at hpack
  exact UInt64.toBitVec_inj.1 hpack

/-- Parts that are canonical are those of the double that is assembled from them. -/
theorem ofFloat?_assemble {b : Binary} (hb : b.Canonical) (hbound : b.exponent ≤ 971) :
    Binary.ofFloat? (assemble b.mantissa b.exponent) = some ⟨false, b.mantissa, b.exponent⟩ := by
  obtain ⟨-, hbelow, hleast, hnormal⟩ := hb
  obtain ⟨k, hk⟩ := Int.eq_ofNat_of_zero_le (show 0 ≤ b.exponent + 1074 by omega)
  have hexponent : b.exponent = k - 1074 := by omega
  have hbits : (k * leadingBit + b.mantissa).toUInt64.toNat = k * leadingBit + b.mantissa := by
    rw [Nat.toUInt64_eq, UInt64.toNat_ofNat']
    apply Nat.mod_eq_of_lt
    simp only [leadingBit] at hbelow ⊢
    omega
  have hless : ¬2047 * leadingBit ≤ k * leadingBit + b.mantissa := by
    simp only [leadingBit] at hbelow ⊢
    omega
  have hsign : (k * leadingBit + b.mantissa) / signedBound = 0 := by
    apply Nat.div_eq_of_lt
    simp only [leadingBit, signedBound] at hbelow ⊢
    omega
  rw [assemble, show (b.exponent + 1074).toNat = k by omega, if_neg hless]
  generalize hn : k * leadingBit + b.mantissa = n at hbits hsign
  simp only [leadingBit] at hbelow hnormal hn
  rcases Nat.lt_or_ge b.mantissa leadingBit with hm | hm
  · have hk : k = 0 := by
      simp only [leadingBit] at hm
      omega
    subst hk
    have hfield : n / leadingBit % 2048 = 0 := by
      simp only [leadingBit] at hm ⊢
      omega
    have hfraction : n % leadingBit = b.mantissa := by
      simp only [leadingBit] at hm ⊢
      omega
    have hfull : n.toUInt64.toNat / leadingBit % 2048 ≠ 2047 := by
      rw [hbits, hfield]
      decide
    simp [Binary.ofFloat?, signBit, toBits_ofBits hfull, hbits, hfield, hfraction, hsign, hexponent]
  · have hfield : n / leadingBit % 2048 = k + 1 := by
      simp only [leadingBit] at hm ⊢
      omega
    have hfraction : leadingBit + n % leadingBit = b.mantissa := by
      simp only [leadingBit] at hm ⊢
      omega
    have hfull : n.toUInt64.toNat / leadingBit % 2048 ≠ 2047 := by
      rw [hbits, hfield]
      omega
    simp only [Binary.ofFloat?, signBit, toBits_ofBits hfull, hbits, hfield, hfraction, hsign]
    rw [if_neg (by simp; omega), if_neg (by simp), hexponent]
    simp
    omega

/-! ## Arithmetic -/

/-- A double is what its number packs to. -/
theorem ofModel_pack_unpack (x : Float) : Float.ofModel (Float.Model.pack x.toModel.unpack) = x :=
  Float.ofBits_toBits x

/-- A double is assembled from the parts that its bits show. -/
theorem eq_assemble {x : Float} {b : Binary} (h : Binary.ofFloat? x = some b)
    (hpos : 0 < b.mantissa) :
    x = if b.negative then -assemble b.mantissa b.exponent else assemble b.mantissa b.exponent := by
  obtain ⟨hunpack, hfinite⟩ := unpack_of_ofFloat? h
  have hassemble := (unpack_of_ofFloat? (ofFloat?_assemble (hfinite.canonical hpos) hfinite.bound)).1
  rw [Binary.unpacked, dif_pos hpos] at hunpack hassemble
  generalize assemble b.mantissa b.exponent = y at hassemble
  split_ifs with hnegative
  · rw [hnegative] at hunpack
    have hneg : x.toModel.unpack = y.toModel.unpack.neg := by
      rw [hunpack, hassemble]
      rfl
    rw [← ofModel_pack_unpack x, hneg]
    rfl
  · rw [Bool.eq_false_of_not_eq_true hnegative] at hunpack
    rw [← ofModel_pack_unpack x, hunpack, ← ofModel_pack_unpack y, hassemble]

/-- A zero is told by its sign. -/
theorem eq_zero {x : Float} {b : Binary} (h : Binary.ofFloat? x = some b) (hzero : b.mantissa = 0) :
    x = if b.negative then -0.0 else 0.0 := by
  obtain ⟨hunpack, -⟩ := unpack_of_ofFloat? h
  rw [Binary.unpacked, dif_neg (by omega)] at hunpack
  rw [← ofModel_pack_unpack x, hunpack]
  cases b.negative
  · decide +kernel
  · decide +kernel

/-- An infinity is told by its sign. -/
theorem eq_infinity {x : Float} (h : x.isInf = true) : x = 1.0 / 0.0 ∨ x = -(1.0 / 0.0) := by
  change x.toModel.unpack.isInf = true at h
  rw [← ofModel_pack_unpack x]
  cases hx : x.toModel.unpack with
  | infinity s =>
      cases s with
      | positive => exact .inl (by decide +kernel)
      | negative => exact .inr (by decide +kernel)
  | _ =>
      rw [hx] at h
      cases h

/-- There is only one NaN. -/
theorem eq_nan {x : Float} (h : x.isNaN = true) : x = 0.0 / 0.0 := by
  change x.toModel.unpack.isNaN = true at h
  rw [← ofModel_pack_unpack x]
  cases hx : x.toModel.unpack with
  | notANumber => decide +kernel
  | _ =>
      rw [hx] at h
      cases h

/-- Adding zeros to a number that is not zero changes nothing. -/
theorem zero_add_add {x : Float} (hnan : x.isNaN = false) (hne : (x == 0) = false) :
    0 + x + nearest 0 = x := by
  by_cases hinf : x.isInf = true
  · rcases eq_infinity hinf with rfl | rfl <;> decide +kernel
  obtain ⟨b, hb⟩ := exists_ofFloat? hnan (Bool.eq_false_of_not_eq_true hinf)
  have hpos : 0 < b.mantissa := by
    rcases Nat.eq_zero_or_pos b.mantissa with hzero | hpos
    · have hzeros : ((-0.0 : Float) == 0) = true ∧ ((0.0 : Float) == 0) = true := by decide +kernel
      rw [eq_zero hb hzero] at hne
      split_ifs at hne
      · rw [hzeros.1] at hne
        cases hne
      · rw [hzeros.2] at hne
        cases hne
    · exact hpos
  obtain ⟨hunpack, -⟩ := unpack_of_ofFloat? hb
  rw [Binary.unpacked, dif_pos hpos] at hunpack
  have hzero : (0 : Float).toModel.unpack = .zero .positive :=
    (unpack_of_ofFloat? (show Binary.ofFloat? 0 = some ⟨false, 0, -1074⟩ by decide +kernel)).1
  have hleft : 0 + x = x := by
    change Float.ofModel (Float.Model.pack (UnpackedFloat.add .binary64 (0 : Float).toModel.unpack
      x.toModel.unpack)) = x
    rw [hzero]
    conv_rhs => rw [← ofModel_pack_unpack x]
    rw [hunpack]
    rfl
  have hright : x + nearest 0 = x := by
    have hnearest : nearest 0 = 0 := by decide +kernel
    change Float.ofModel (Float.Model.pack (UnpackedFloat.add .binary64 x.toModel.unpack
      (nearest 0).toModel.unpack)) = x
    rw [hnearest, hzero]
    conv_rhs => rw [← ofModel_pack_unpack x]
    rw [hunpack]
    rfl
  rw [hleft, hright]

theorem shiftRight_exact (m k : Nat) :
    (⟨m * 2 ^ k, false, false⟩ : ExtendedMantissa) >>> k = ⟨m, false, false⟩ := by
  induction k generalizing m with
  | zero => simp [HShiftRight.hShiftRight, Nat.repeat]
  | succ k ih =>
      have hstep : (⟨m * 2 ^ (k + 1), false, false⟩ : ExtendedMantissa) >>> (k + 1) =
          ((⟨m * 2 * 2 ^ k, false, false⟩ : ExtendedMantissa) >>> k).shiftRightOne := by
        rw [Nat.mul_assoc, ← Nat.pow_succ']
        rfl
      rw [hstep, ih]
      simp [ExtendedMantissa.shiftRightOne]

theorem targetExponent_of_canonical {b : Binary} (hb : b.Canonical) :
    Format.binary64.targetExponent (totalExponent b.mantissa b.exponent) = b.exponent := by
  obtain ⟨hpos, hbelow, hleast, hnormal⟩ := hb
  change max ((b.mantissa.log2 : Int) + 1 + b.exponent - 53) (-1074) = b.exponent
  have hlog : b.mantissa.log2 < 53 := (Nat.log2_lt hpos.ne').2 hbelow
  rcases hnormal with hnormal | hnormal
  · omega
  · have hlog' : 52 ≤ b.mantissa.log2 := (Nat.le_log2 hpos.ne').2 hnormal
    omega

/-- A mantissa that is in place already is not moved by rounding. -/
theorem roundWithAccuracy_exact {b : Binary} (hb : b.Canonical) (s : Sign) :
    roundWithAccuracy .binary64 s (b.mantissa * leadingBit) (b.exponent - 52) .exact =
      .finite s b.mantissa b.exponent hb.pos := by
  have htarget := targetExponent_of_canonical hb
  have hwide : totalExponent (b.mantissa * leadingBit) (b.exponent - 52) =
      totalExponent b.mantissa b.exponent := by
    have hlog : (b.mantissa * leadingBit).log2 = b.mantissa.log2 + 52 := by
      have hlow := Nat.log2_self_le hb.pos.ne'
      have hhigh := @Nat.lt_log2_self b.mantissa
      rw [Nat.log2_eq_iff (Nat.mul_pos hb.pos (by decide)).ne', show leadingBit = 2 ^ 52 from rfl]
      constructor
      · rw [Nat.pow_add]
        exact Nat.mul_le_mul_right _ hlow
      · rw [Nat.add_right_comm, Nat.pow_add]
        exact Nat.mul_lt_mul_of_pos_right hhigh (by decide)
    rw [totalExponent, totalExponent, hlog]
    push_cast
    ring
  have hfirst : shiftToTargetExponent .binary64 (b.mantissa * leadingBit) (b.exponent - 52) .exact =
      (⟨b.mantissa, false, false⟩, b.exponent) := by
    rw [shiftToTargetExponent, hwide, htarget, shiftToExponent]
    rw [show b.exponent - (b.exponent - 52) = 52 by ring]
    exact Prod.ext (shiftRight_exact b.mantissa 52) (by simp)
  have hsecond : shiftToTargetExponent .binary64 b.mantissa b.exponent .exact =
      (⟨b.mantissa, false, false⟩, b.exponent) := by
    rw [shiftToTargetExponent, htarget, shiftToExponent, sub_self]
    exact Prod.ext rfl (by simp)
  have hrounded : (⟨b.mantissa, false, false⟩ : ExtendedMantissa).roundedMantissa = b.mantissa := rfl
  rw [roundWithAccuracy, hfirst]
  simp only [hrounded, hsecond]
  rw [dif_neg hb.pos.ne']

/-- Multiplying a number by one changes nothing. -/
theorem one_mul_mul {x : Float} (hnan : x.isNaN = false) : 1 * x * nearest 1 = x := by
  by_cases hinf : x.isInf = true
  · rcases eq_infinity hinf with rfl | rfl <;> decide +kernel
  obtain ⟨b, hb⟩ := exists_ofFloat? hnan (Bool.eq_false_of_not_eq_true hinf)
  obtain ⟨hunpack, hfinite⟩ := unpack_of_ofFloat? hb
  have hone : (1 : Float).toModel.unpack = .finite .positive leadingBit (-52) (by decide) :=
    (unpack_of_ofFloat? (show Binary.ofFloat? 1 = some ⟨false, leadingBit, -52⟩ by decide +kernel)).1
  have hnearest : nearest 1 = 1 := by decide +kernel
  have hsigns (s : Sign) : Sign.positive * s = s ∧ s * Sign.positive = s := by
    cases s
    · exact ⟨rfl, rfl⟩
    · exact ⟨rfl, rfl⟩
  have hmul : UnpackedFloat.mul .binary64 (1 : Float).toModel.unpack x.toModel.unpack =
        x.toModel.unpack ∧
      UnpackedFloat.mul .binary64 x.toModel.unpack (1 : Float).toModel.unpack =
        x.toModel.unpack := by
    rw [hone, hunpack, Binary.unpacked]
    split_ifs with hpos
    · have hround := roundWithAccuracy_exact (hfinite.canonical hpos) (signOf b.negative)
      simp only [UnpackedFloat.mul, hsigns]
      rw [Nat.mul_comm leadingBit, Int.add_comm (-52), Int.add_neg_eq_sub]
      exact ⟨hround, hround⟩
    · simp only [UnpackedFloat.mul, hsigns, and_self]
  have hleft : 1 * x = x := by
    change Float.ofModel (Float.Model.pack (UnpackedFloat.mul .binary64 (1 : Float).toModel.unpack
      x.toModel.unpack)) = x
    rw [hmul.1, ofModel_pack_unpack]
  rw [hleft, hnearest]
  change Float.ofModel (Float.Model.pack (UnpackedFloat.mul .binary64 x.toModel.unpack
    (1 : Float).toModel.unpack)) = x
  rw [hmul.2, ofModel_pack_unpack]

theorem isNaN_isInf_of_isFinite {x : Float} (h : x.isFinite = true) :
    x.isNaN = false ∧ x.isInf = false := by
  change x.toModel.unpack.isFinite = true at h
  change x.toModel.unpack.isNaN = false ∧ x.toModel.unpack.isInf = false
  cases hx : x.toModel.unpack with
  | finite | zero => exact ⟨rfl, rfl⟩
  | _ =>
      rw [hx] at h
      cases h

end ExprCompiler.Numeral
