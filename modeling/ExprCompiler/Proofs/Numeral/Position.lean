import ExprCompiler.Proofs.Numeral.Double
import ExprCompiler.Proofs.Numeral.Finite
import ExprCompiler.Proofs.Numeral.Order

/-!
# Positions of doubles

The doubles that are numbers stand in a row from minus infinity to infinity, both zeros at one
place, and exponent and mantissa tell how far from zero a double stands. Main statements: doubles
relate as their positions do (`Numeral.relate_eq_compare`), and of two rationals the greater one is
not rounded to the lower position (`Numeral.position_nearest_mono`).
-/

namespace ExprCompiler.Numeral

open Float.Model Float.Model.UnpackedFloat

/-- How many doubles there are from zero up to the one with this mantissa and exponent. -/
def Binary.steps (b : Binary) : Int := (b.exponent + 1074) * leadingBit + b.mantissa

/-- The number of steps from zero to infinity. -/
def stepsToInfinity : Int := 2047 * leadingBit

/-- Where a number stands among the doubles, counted from zero. -/
def place : UnpackedFloat → Int
  | .notANumber | .zero _ => 0
  | .infinity s => s.apply stepsToInfinity
  | .finite s m e _ => s.apply (Binary.steps ⟨false, m, e⟩)

def position (x : Float) : Int := place x.toModel.unpack

/-! ## Comparison -/

namespace Binary

variable {b c : Binary}

/-- Canonical parts are in the order of exponents, and of mantissas where these are equal. -/
theorem Canonical.steps_lt_iff (hb : b.Canonical) (hc : c.Canonical) :
    b.steps < c.steps ↔
      b.exponent < c.exponent ∨ b.exponent = c.exponent ∧ b.mantissa < c.mantissa := by
  obtain ⟨-, hb₁, hb₂, hb₃⟩ := hb
  obtain ⟨-, hc₁, hc₂, hc₃⟩ := hc
  simp only [steps, leadingBit] at hb₁ hb₃ hc₁ hc₃ ⊢
  omega

/-- A canonical double lies above zero and below infinity. -/
theorem Canonical.steps_bounds (hb : b.Canonical) (hbound : b.exponent ≤ 971) :
    0 < b.steps ∧ b.steps < stepsToInfinity := by
  obtain ⟨hb₀, hb₁, hb₂, -⟩ := hb
  simp only [steps, stepsToInfinity, leadingBit] at hb₁ ⊢
  omega

end Binary

/-- Whether mantissa and exponent of a number are those of a double. -/
def Regular : UnpackedFloat → Prop
  | .finite _ m e _ => Binary.Canonical ⟨false, m, e⟩ ∧ e ≤ 971
  | _ => True

theorem regular_unpack (x : Float) : Regular x.toModel.unpack := by
  by_cases hx : x.isNaN = false ∧ x.isInf = false
  · obtain ⟨b, hb⟩ := exists_ofFloat? hx.1 hx.2
    obtain ⟨hunpack, hfinite⟩ := unpack_of_ofFloat? hb
    rw [hunpack, Binary.unpacked]
    split_ifs with hpos
    · obtain ⟨-, hbelow, hleast, hnormal⟩ := hfinite.canonical hpos
      exact ⟨⟨hpos, hbelow, hleast, hnormal⟩, hfinite.bound⟩
    · trivial
  · change ¬(x.toModel.unpack.isNaN = false ∧ x.toModel.unpack.isInf = false) at hx
    cases hu : x.toModel.unpack with
    | finite s m e hm => simp [hu, UnpackedFloat.isNaN, UnpackedFloat.isInf] at hx
    | _ => trivial

theorem then_compare_eq_lt {e₁ e₂ : Int} {m₁ m₂ : Nat} :
    (compare e₁ e₂).then (compare m₁ m₂) = .lt ↔ e₁ < e₂ ∨ e₁ = e₂ ∧ m₁ < m₂ := by
  rw [Ordering.then_eq_lt, compare_lt_iff_lt, compare_lt_iff_lt, compare_eq_iff_eq]

/-- Finite numbers of one sign are compared by exponent and mantissa, and so are their places. -/
theorem compare_finite_eq_lt_iff {s : Sign} {m₁ m₂ : Nat} {e₁ e₂ : Int} {h₁ : 0 < m₁}
    {h₂ : 0 < m₂} (hu : Regular (.finite s m₁ e₁ h₁)) (hv : Regular (.finite s m₂ e₂ h₂)) :
    (UnpackedFloat.finite s m₁ e₁ h₁).compare (.finite s m₂ e₂ h₂) = some .lt ↔
      place (.finite s m₁ e₁ h₁) < place (.finite s m₂ e₂ h₂) := by
  cases s with
  | negative =>
      simp only [UnpackedFloat.compare, place, Sign.apply, Option.some.injEq, neg_lt_neg_iff,
        hv.1.steps_lt_iff hu.1, ← then_compare_eq_lt, compare_then_swap e₁ e₂]
  | positive =>
      simp only [UnpackedFloat.compare, place, Sign.apply, Option.some.injEq,
        hu.1.steps_lt_iff hv.1, ← then_compare_eq_lt]

/-- A number is below another one if its place is. -/
theorem compare_eq_lt_iff {u v : UnpackedFloat} (hu : Regular u) (hv : Regular v)
    (hu' : u.isNaN = false) (hv' : v.isNaN = false) :
    u.compare v = some .lt ↔ place u < place v := by
  have hinf : 0 < stepsToInfinity := by decide
  cases u with
  | notANumber => cases hu'
  | infinity s =>
      cases v with
      | notANumber => cases hv'
      | infinity t => cases s <;> cases t <;> decide
      | zero t => cases s <;> simp [UnpackedFloat.compare, place, Sign.apply, hinf, hinf.le]
      | finite t m e hm =>
          have hbounds := hv.1.steps_bounds hv.2
          cases s <;> cases t <;> simp [UnpackedFloat.compare, place, Sign.apply] <;> omega
  | zero s =>
      cases v with
      | notANumber => cases hv'
      | infinity t => cases t <;> simp [UnpackedFloat.compare, place, Sign.apply, hinf, hinf.le]
      | zero t => simp [UnpackedFloat.compare, place]
      | finite t m e hm =>
          have hbounds := hv.1.steps_bounds hv.2
          cases t <;> simp [UnpackedFloat.compare, place, Sign.apply] <;> omega
  | finite s m e hm =>
      have hbounds := hu.1.steps_bounds hu.2
      cases v with
      | notANumber => cases hv'
      | infinity t =>
          cases s <;> cases t <;> simp [UnpackedFloat.compare, place, Sign.apply] <;> omega
      | zero t => cases s <;> simp [UnpackedFloat.compare, place, Sign.apply] <;> omega
      | finite t m' e' hm' =>
          have hbounds' := hv.1.steps_bounds hv.2
          by_cases hst : s = t
          · subst hst
            exact compare_finite_eq_lt_iff hu hv
          · cases s <;> cases t <;>
              first
              | exact absurd rfl hst
              | simp [UnpackedFloat.compare, place, Sign.apply]; omega

/-- Doubles relate as their positions do. -/
theorem relate_eq_compare {x y : Float} (hx : x.isNaN = false) (hy : y.isNaN = false) :
    relate x y = some (compare (position x) (position y)) := by
  have hlt : relate x y = some .lt ↔ position x < position y :=
    compare_eq_lt_iff (regular_unpack x) (regular_unpack y) hx hy
  have hgt : relate x y = some .gt ↔ position y < position x := by
    rw [← gt_iff_relate, lt_iff_relate]
    exact compare_eq_lt_iff (regular_unpack y) (regular_unpack x) hy hx
  have hsome : relate x y ≠ none := by
    rw [ne_eq, relate_eq_none, hx, hy]
    simp
  rcases lt_trichotomy (position x) (position y) with h | h | h
  · rw [hlt.2 h, compare_lt_iff_lt.2 h]
  · rw [h] at hlt hgt ⊢
    rw [compare_eq_iff_eq.2 rfl]
    rcases ho : relate x y with _ | _ | _ | _
    · exact absurd ho hsome
    · exact absurd (hlt.1 ho) (lt_irrefl _)
    · rfl
    · exact absurd (hgt.1 ho) (lt_irrefl _)
  · rw [hgt.2 h, compare_gt_iff_gt.2 h]

/-! ## Negation -/

theorem unpack_packComponents_neg (s : Sign) (e : BitVec 11) (m : BitVec 52) :
    UnpackedFloat.unpack .binary64 (packComponents .binary64 (-s) e m) =
      (UnpackedFloat.unpack .binary64 (packComponents .binary64 s e m)).neg := by
  have hsign : Sign.ofBitVec (-s).toBitVec = -Sign.ofBitVec s.toBitVec := by cases s <;> rfl
  simp only [UnpackedFloat.unpack, unpackExponent_packComponents, unpackMantissa_packComponents,
    unpackSign_packComponents, hsign]
  split_ifs <;> rfl

/-- Only the sign bit of a packed number changes with its sign. -/
theorem unpack_pack_neg (u : UnpackedFloat) :
    UnpackedFloat.unpack .binary64 (UnpackedFloat.pack .binary64 u.neg) =
      (UnpackedFloat.unpack .binary64 (UnpackedFloat.pack .binary64 u)).neg := by
  cases u with
  | notANumber => rfl
  | infinity s | zero s => exact unpack_packComponents_neg s _ _
  | finite s m e hm =>
      simp only [UnpackedFloat.pack, UnpackedFloat.neg]
      split_ifs
      · exact unpack_packComponents_neg s _ _
      · exact unpack_packComponents_neg s _ _
      · exact unpack_packComponents_neg s _ _

/-- Packing the parts of a double and unpacking them gives them back. -/
theorem unpack_pack_unpack (x : Float) :
    UnpackedFloat.unpack .binary64 (UnpackedFloat.pack .binary64 x.toModel.unpack) =
      x.toModel.unpack := by
  have h := congrArg (fun y : Float ↦ y.toModel.unpack) (ofModel_pack_unpack x)
  exact h

theorem unpack_neg (x : Float) : (-x).toModel.unpack = x.toModel.unpack.neg := by
  change UnpackedFloat.unpack .binary64 (UnpackedFloat.pack .binary64 x.toModel.unpack.neg) = _
  rw [unpack_pack_neg, unpack_pack_unpack]

theorem position_neg (x : Float) : position (-x) = -position x := by
  rw [position, position, unpack_neg]
  cases x.toModel.unpack with
  | notANumber | zero s => rfl
  | infinity s | finite s m e hm => cases s <;> simp [UnpackedFloat.neg, place, Sign.apply]

/-! ## Rounding -/

/-- The place of a number is the number of steps to it, if a zero has the least exponent. -/
theorem place_unpacked {b : Binary} (hzero : b.mantissa = 0 → b.exponent = -1074) :
    place b.unpacked = (signOf b.negative).apply b.steps := by
  rw [Binary.unpacked]
  split_ifs with hpos
  · rfl
  · have hm : b.mantissa = 0 := by omega
    have hsteps : b.steps = 0 := by
      rw [Binary.steps, hm, hzero hm]
      rfl
    rw [hsteps]
    cases signOf b.negative <;> rfl

/-- Bits below those of infinity are the position of a double. -/
theorem position_ofBits {n : Nat} (h : n < 2047 * leadingBit) :
    position (Float.ofBits n.toUInt64) = n := by
  have hn : n.toUInt64.toBitVec.toNat = n := by
    rw [UInt64.toNat_toBitVec, Nat.toUInt64_eq, UInt64.toNat_ofNat']
    apply Nat.mod_eq_of_lt
    simp only [leadingBit] at h
    omega
  have hfull : n.toUInt64.toBitVec.toNat / leadingBit % 2048 ≠ 2047 := by
    rw [hn]
    simp only [leadingBit] at h ⊢
    omega
  have hsign : (n / signedBound == 1) = false := by
    simp only [leadingBit, signedBound, beq_eq_false_iff_ne, ne_eq] at h ⊢
    omega
  have hunpack : (Float.ofBits n.toUInt64).toModel.unpack =
      UnpackedFloat.unpack .binary64 n.toUInt64.toBitVec := by
    change UnpackedFloat.unpack .binary64 (Float.ofBits n.toUInt64).toBits.toBitVec = _
    rw [toBits_ofBits hfull]
  rw [position, hunpack, unpack_eq_unpacked hfull, hn, hsign]
  split_ifs with hfield
  · rw [place_unpacked fun _ ↦ rfl]
    change (-1074 + 1074) * (leadingBit : Int) + (n % leadingBit : Nat) = n
    simp only [leadingBit] at h hfield ⊢
    omega
  · rw [place_unpacked fun hzero ↦ by simp [leadingBit] at hzero]
    change (((n / leadingBit % 2048 : Nat) : Int) - 1075 + 1074) * (leadingBit : Int) +
      (leadingBit + n % leadingBit : Nat) = n
    simp only [leadingBit] at h hfield ⊢
    omega

/-- What is assembled lies its steps above zero, but not beyond infinity. -/
theorem position_assemble (m : Nat) {e : Int} (he : -1074 ≤ e) :
    position (assemble m e) = min (Binary.steps ⟨false, m, e⟩) stepsToInfinity := by
  have hsteps : (((e + 1074).toNat * leadingBit + m : Nat) : Int) = Binary.steps ⟨false, m, e⟩ := by
    rw [Binary.steps]
    push_cast
    rw [Int.toNat_of_nonneg (by omega)]
  have hinf : ((2047 * leadingBit : Nat) : Int) = stepsToInfinity := rfl
  rw [assemble]
  split_ifs with hle
  · rw [min_eq_right]
    · decide +kernel
    · rw [← hsteps, ← hinf]
      exact_mod_cast hle
  · rw [position_ofBits (Nat.lt_of_not_le hle), hsteps, min_eq_left]
    rw [← hsteps, ← hinf]
    exact_mod_cast (Nat.lt_of_not_le hle).le

/-- What a quotient is rounded to in the units of its double. -/
def roundedMantissa (n d : Nat) : Nat :=
  divHalfEven (inUnits n d (unitExponent n d)).1 (inUnits n d (unitExponent n d)).2

section Quotients

variable {n d n' d' : Nat} (hn : 0 < n) (hd : 0 < d) (hn' : 0 < n') (hd' : 0 < d')
include hn hd

theorem position_nearestQuotient : position (nearestQuotient n d) =
    min (Binary.steps ⟨false, roundedMantissa n d, unitExponent n d⟩) stepsToInfinity := by
  rw [nearestQuotient_eq hn hd]
  exact position_assemble _ (fits_unitExponent hn hd).least

/-- Rounding up may reach the next power of two. -/
theorem roundedMantissa_le : roundedMantissa n d ≤ 2 * leadingBit := by
  obtain ⟨hpos, hquotient⟩ := inUnits_spec (n := n) hd (unitExponent n d)
  obtain ⟨-, hhigh⟩ := divHalfEven_near (inUnits n d (unitExponent n d)).1 hpos
  have hbelow := (fits_unitExponent hn hd).below
  have hlt : (roundedMantissa n d : ℚ) < 2 * leadingBit + 1 := by
    rw [roundedMantissa, cast_leadingBit]
    rw [hquotient] at hhigh
    linarith
  exact Nat.le_of_lt_succ (by exact_mod_cast hlt)

/-- Above the subnormal range the rounded mantissa has its leading bit. -/
theorem le_roundedMantissa (hnormal : unitExponent n d ≠ -1074) :
    leadingBit ≤ roundedMantissa n d := by
  obtain ⟨hpos, hquotient⟩ := inUnits_spec (n := n) hd (unitExponent n d)
  obtain ⟨hlow, -⟩ := divHalfEven_near (inUnits n d (unitExponent n d)).1 hpos
  have habove := (fits_unitExponent hn hd).normal.resolve_left hnormal
  have hlt : (leadingBit : ℚ) < roundedMantissa n d + 1 := by
    rw [roundedMantissa, cast_leadingBit]
    rw [hquotient] at hlow
    linarith
  exact Nat.le_of_lt_succ (by exact_mod_cast hlt)

include hn' hd'

/-- The greater of two quotients is not rounded to the lower position. -/
theorem position_nearestQuotient_mono (hle : (n : ℚ) / d ≤ n' / d') :
    position (nearestQuotient n d) ≤ position (nearestQuotient n' d') := by
  rw [position_nearestQuotient hn hd, position_nearestQuotient hn' hd']
  apply min_le_min_right
  have hleast := (fits_unitExponent hn hd).least
  rcases ((fits_unitExponent hn' hd').mono (fits_unitExponent hn hd) hle).eq_or_lt with heq | hlt
  · -- Equal units: rounding to a natural number keeps the order.
    have hm : roundedMantissa n d ≤ roundedMantissa n' d' := by
      obtain ⟨hpos, hquotient⟩ := inUnits_spec (n := n) hd (unitExponent n d)
      obtain ⟨hpos', hquotient'⟩ := inUnits_spec (n := n') hd' (unitExponent n' d')
      refine divHalfEven_mono hpos hpos' ?_
      rw [hquotient, hquotient', heq]
      gcongr
    simp only [Binary.steps, heq]
    omega
  · -- Smaller units: at most the number that the greater units start with.
    have hhigh := roundedMantissa_le hn hd
    have hlow := le_roundedMantissa hn' hd' (by omega)
    simp only [Binary.steps, leadingBit] at hhigh hlow ⊢
    omega

end Quotients

section Rationals

variable {p q : ℚ}

/-- Rounding commutes with negation. -/
theorem position_nearest_neg (q : ℚ) : position (nearest (-q)) = -position (nearest q) := by
  rcases lt_trichotomy q 0 with hq | rfl | hq
  · rw [nearest, nearest, if_neg (by simpa using hq.le), if_pos (by simpa using hq), position_neg]
    simp
  · decide +kernel
  · rw [nearest, nearest, if_pos (by simpa using hq), if_neg (by simpa using hq.le), position_neg]
    simp

/-- Rounding is monotone above zero. -/
theorem position_nearest_mono_of_nonneg (hp : 0 ≤ p) (h : p ≤ q) :
    position (nearest p) ≤ position (nearest q) := by
  have hnum {r : ℚ} (hr : 0 < r) : 0 < r.num.natAbs := Int.natAbs_pos.2 (Rat.num_pos.2 hr).ne'
  have hnearest {r : ℚ} (hr : 0 < r) : nearest r = nearestQuotient r.num.natAbs r.den := by
    rw [nearest, if_neg (Rat.num_pos.2 hr).not_gt]
  have hquotient {r : ℚ} (hr : 0 < r) : (r.num.natAbs : ℚ) / r.den = r := by
    rw [Nat.cast_natAbs, abs_of_pos (Rat.num_pos.2 hr), Rat.num_div_den]
  rcases hp.eq_or_lt with rfl | hp
  · rcases h.eq_or_lt with rfl | hq
    · exact le_rfl
    · have hleast := (fits_unitExponent (hnum hq) q.den_pos).least
      have hzero : position (nearest 0) = 0 := by decide +kernel
      rw [hzero, hnearest hq, position_nearestQuotient (hnum hq) q.den_pos]
      refine le_min ?_ (by decide)
      simp only [Binary.steps, leadingBit]
      omega
  · have hq := hp.trans_le h
    rw [hnearest hp, hnearest hq]
    refine position_nearestQuotient_mono (hnum hp) p.den_pos (hnum hq) q.den_pos ?_
    rwa [hquotient hp, hquotient hq]

/-- The greater of two rationals is not rounded to the lower position. -/
theorem position_nearest_mono (h : p ≤ q) : position (nearest p) ≤ position (nearest q) := by
  have hnonpos {p q : ℚ} (hq : q ≤ 0) (h : p ≤ q) :
      position (nearest p) ≤ position (nearest q) := by
    have hneg := position_nearest_mono_of_nonneg (neg_nonneg.2 hq) (neg_le_neg h)
    rw [position_nearest_neg, position_nearest_neg] at hneg
    omega
  rcases le_total 0 p with hp | hp
  · exact position_nearest_mono_of_nonneg hp h
  · rcases le_total q 0 with hq | hq
    · exact hnonpos hq h
    · exact (hnonpos le_rfl hp).trans (position_nearest_mono_of_nonneg le_rfl hq)

end Rationals

end ExprCompiler.Numeral
