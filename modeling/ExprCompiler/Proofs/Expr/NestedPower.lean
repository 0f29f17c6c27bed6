import ExprCompiler.Expr.Build
import Mathlib.Analysis.SpecialFunctions.Pow.Real

/-!
# Powers of powers

The constructor multiplies the exponents of a power of a power, whatever the base. Main statement:
where a whole power of a symbol and an exact power of that are real numbers, the expression that is
built has the value of the latter if and only if the symbol is not negative, the inner exponent is
odd, or the product of the exponents is even (`Expr.realValue?_nested_iff`). Otherwise it has the
opposite value or none.
-/

namespace ExprCompiler.Expr

/-! ## Real powers -/

/-- Whether a power of real numbers is a real number: zero has no negative powers, and negative
numbers have only whole ones. -/
def HasRealPower (b y : ℝ) : Prop := (b = 0 → 0 ≤ y) ∧ (b < 0 → ∃ k : ℤ, y = k)

open Classical in
/-- The power of real numbers, where it is one. -/
noncomputable def realPower? (b y : ℝ) : Option ℝ := if HasRealPower b y then some (b ^ y) else none

/-- The real value of numbers and symbols under powers, where there is one. -/
noncomputable def realValue? (σ : String → ℝ) : Expr → Option ℝ
  | .num q => some q
  | .sym s => some (σ s)
  | .pow b x => do realPower? (← realValue? σ b) (← realValue? σ x)
  | _ => none

/-- A real power exists where it is defined, and is the usual one. -/
theorem realPower?_eq_some {b y r : ℝ} :
    realPower? b y = some r ↔ HasRealPower b y ∧ b ^ y = r := by
  unfold realPower?
  split
  · rename_i h
    simp [h]
  · rename_i h
    simp [h]

theorem realPower?_eq_none {b y : ℝ} : realPower? b y = none ↔ ¬HasRealPower b y := by
  unfold realPower?
  split
  · rename_i h
    simp [h]
  · rename_i h
    simp [h]

/-- Whole powers of a base other than zero exist. -/
theorem hasRealPower_intCast {b : ℝ} (h : b ≠ 0) (k : ℤ) : HasRealPower b k :=
  ⟨fun hb ↦ absurd hb h, fun _ ↦ ⟨k, rfl⟩⟩

/-! ## What is built -/

/-- The product of two numbers is folded. -/
theorem mulOf_num_num (p q : ℚ) : mulOf [.num p, .num q] = .num (p * q) := by
  have hproduct : exactProduct [.num p, .num q] = p * q := by
    simp [exactProduct]
  by_cases hzero : p * q = 0
  · simp [mulOf, factorsOf, hproduct, hzero]
  · simp [mulOf, factorsOf, hproduct, hzero, inexactProduct, isNumber]

/-- A power of a power of a symbol is the power with the product of the exponents, also where one
of the powers is the number one or the symbol itself. -/
theorem powOf_powOf_sym (s : String) (p q : ℚ) :
    powOf (powOf (.sym s) (.num p)) (.num q) = powOf (.sym s) (.num (p * q)) := by
  by_cases hp0 : p = 0
  · simp [powOf, hp0]
  by_cases hp1 : p = 1
  · simp [powOf, hp1]
  have hinner : powOf (.sym s) (.num p) = .pow (.sym s) (.num p) := by
    simp [powOf, hp0, hp1]
  rw [hinner]
  by_cases hq0 : q = 0
  · simp [powOf, hq0]
  by_cases hq1 : q = 1
  · simp [hq1, powOf, hp0, hp1]
  rw [powOf]
  simp [hq0, hq1, mulOf_num_num]

/-- A power of a symbol has the value of the power. -/
theorem realValue?_powOf_sym (σ : String → ℝ) (s : String) (q : ℚ) :
    realValue? σ (powOf (.sym s) (.num q)) = realPower? (σ s) q := by
  by_cases hq0 : q = 0
  · have hpower : realPower? (σ s) 0 = some 1 :=
      realPower?_eq_some.2 ⟨⟨fun _ ↦ le_rfl, fun _ ↦ ⟨0, by simp⟩⟩, Real.rpow_zero _⟩
    simp [powOf, hq0, realValue?, hpower]
  by_cases hq1 : q = 1
  · have hpower : realPower? (σ s) 1 = some (σ s) :=
      realPower?_eq_some.2 ⟨⟨fun _ ↦ zero_le_one, fun _ ↦ ⟨1, by simp⟩⟩, Real.rpow_one _⟩
    simp [powOf, hq1, realValue?, hpower]
  simp [powOf, hq0, hq1, realValue?]

/-! ## Values -/

/-- Where multiplying a whole inner exponent into an outer one keeps the value. -/
def KeepsNested (v : ℝ) (m : ℤ) (n : ℚ) : Prop :=
  0 ≤ v ∨ Odd m ∨ ∃ k : ℤ, (m : ℚ) * n = 2 * k

section Values

variable {v u r : ℝ} {m : ℤ} {n : ℚ}

/-- Exponents of a base that is not negative are multiplied. -/
theorem realPower?_mul_of_nonneg (hv : 0 ≤ v) (hu : realPower? v m = some u)
    (hr : realPower? u n = some r) : realPower? v (m * n) = some r := by
  obtain ⟨hm, rfl⟩ := realPower?_eq_some.1 hu
  obtain ⟨hn, rfl⟩ := realPower?_eq_some.1 hr
  refine realPower?_eq_some.2 ⟨⟨fun hzero ↦ ?_, fun hneg ↦ absurd hneg hv.not_gt⟩,
    Real.rpow_mul hv _ _⟩
  rcases (hm.1 hzero).eq_or_lt with hm0 | hmpos
  · simp [← hm0]
  · -- A positive power of zero is zero, so the outer exponent is not negative.
    have hpower : v ^ (m : ℝ) = 0 := by rw [hzero, Real.zero_rpow hmpos.ne']
    exact mul_nonneg hmpos.le (hn.1 hpower)

/-- So are they for a negative base under an odd power. -/
theorem realPower?_mul_of_odd (hv : v < 0) (hm : Odd m) (hu : realPower? v m = some u)
    (hr : realPower? u n = some r) : realPower? v (m * n) = some r := by
  obtain ⟨-, rfl⟩ := realPower?_eq_some.1 hu
  obtain ⟨hn, rfl⟩ := realPower?_eq_some.1 hr
  -- The inner power is negative, so the outer exponent is whole.
  have hneg : v ^ (m : ℝ) < 0 := by
    rw [Real.rpow_intCast]
    exact hm.zpow_neg hv
  obtain ⟨k, hk⟩ := hn.2 hneg
  have hmul : (m : ℝ) * n = ((m * k : ℤ) : ℝ) := by rw [hk, Int.cast_mul]
  refine realPower?_eq_some.2 ⟨?_, ?_⟩
  · rw [hmul]
    exact hasRealPower_intCast hv.ne _
  · rw [hmul, hk, Real.rpow_intCast, Real.rpow_intCast, Real.rpow_intCast, zpow_mul]

/-- A power of an even power of a negative number is one of the number's magnitude. -/
theorem eq_rpow_neg_of_even (hv : v < 0) (hm : Even m) (hu : realPower? v m = some u)
    (hr : realPower? u n = some r) : r = (-v) ^ ((m : ℝ) * n) := by
  obtain ⟨-, rfl⟩ := realPower?_eq_some.1 hu
  obtain ⟨-, rfl⟩ := realPower?_eq_some.1 hr
  rw [Real.rpow_mul (neg_pos.2 hv).le, Real.rpow_intCast, Real.rpow_intCast, hm.neg_zpow]

/-- Under an even power the sign of a negative base is lost, and the product of the exponents brings
it back if it is odd. -/
theorem realPower?_mul_of_even {k : ℤ} (hv : v < 0) (hm : Even m) (hu : realPower? v m = some u)
    (hr : realPower? u n = some r) (hk : (m : ℝ) * n = k) :
    realPower? v (m * n) = some (if Even k then r else -r) := by
  have hpower := eq_rpow_neg_of_even hv hm hu hr
  rw [hk, Real.rpow_intCast] at hpower
  rw [hk]
  refine realPower?_eq_some.2 ⟨hasRealPower_intCast hv.ne k, ?_⟩
  rw [Real.rpow_intCast]
  split
  · rename_i heven
    rw [hpower, heven.neg_zpow]
  · rename_i hodd
    rw [hpower, (Int.not_even_iff_odd.1 hodd).neg_zpow, neg_neg]

/-- Where multiplying the exponents is right, the power with the product has the value. -/
theorem realPower?_mul_of_keeps (h : KeepsNested v m n) (hu : realPower? v m = some u)
    (hr : realPower? u n = some r) : realPower? v (m * n) = some r := by
  rcases le_or_gt 0 v with hv | hv
  · exact realPower?_mul_of_nonneg hv hu hr
  rcases Int.even_or_odd m with hm | hm
  · obtain hnonneg | hodd | ⟨k, hk⟩ := h
    · exact absurd hv hnonneg.not_gt
    · exact absurd hm (Int.not_even_iff_odd.2 hodd)
    · have hk : (m : ℝ) * n = ((2 * k : ℤ) : ℝ) := by exact_mod_cast hk
      rw [realPower?_mul_of_even hv hm hu hr hk, if_pos (even_two_mul k)]
  · exact realPower?_mul_of_odd hv hm hu hr

open Classical in
/-- Elsewhere the power with the product has the opposite value, or none. -/
theorem realPower?_mul_of_not_keeps (h : ¬KeepsNested v m n) (hu : realPower? v m = some u)
    (hr : realPower? u n = some r) :
    0 < r ∧ realPower? v (m * n) = if ∃ k : ℤ, (m : ℚ) * n = k then some (-r) else none := by
  obtain ⟨hv, hodd, heven⟩ : v < 0 ∧ ¬Odd m ∧ ¬∃ k : ℤ, (m : ℚ) * n = 2 * k := by
    simpa [KeepsNested] using h
  have hm : Even m := Int.not_odd_iff_even.1 hodd
  refine ⟨?_, ?_⟩
  · rw [eq_rpow_neg_of_even hv hm hu hr]
    exact Real.rpow_pos_of_pos (neg_pos.2 hv) _
  · split
    · rename_i hwhole
      obtain ⟨k, hk⟩ := hwhole
      have hkodd : ¬Even k := by
        rintro ⟨l, rfl⟩
        exact heven ⟨l, by rw [hk, two_mul, Int.cast_add]⟩
      have hk : (m : ℝ) * n = k := by exact_mod_cast hk
      rw [realPower?_mul_of_even hv hm hu hr hk, if_neg hkodd]
    · rename_i hwhole
      refine realPower?_eq_none.2 fun hpower ↦ hwhole ?_
      obtain ⟨k, hk⟩ := hpower.2 hv
      exact ⟨k, by exact_mod_cast hk⟩

end Values

/-! ## The theorem -/

open Classical in
/-- Where a whole power of a symbol and an exact power of that are real numbers, the power of the
power that is built has the value of the latter if and only if the symbol is not negative, the inner
exponent is odd, or the product of the exponents is even. Otherwise it has the opposite value, or
none if the product is not whole. -/
theorem realValue?_nested_iff (σ : String → ℝ) (s : String) (m : ℤ) (n : ℚ) {u r : ℝ}
    (hu : realPower? (σ s) m = some u) (hr : realPower? u n = some r) :
    (realValue? σ (powOf (powOf (.sym s) (.num m)) (.num n)) = some r ↔ KeepsNested (σ s) m n) ∧
      (¬KeepsNested (σ s) m n →
        realValue? σ (powOf (powOf (.sym s) (.num m)) (.num n)) =
          if ∃ k : ℤ, (m : ℚ) * n = k then some (-r) else none) := by
  have hvalue : realValue? σ (powOf (powOf (.sym s) (.num m)) (.num n)) =
      realPower? (σ s) (m * n) := by
    rw [powOf_powOf_sym, realValue?_powOf_sym, Rat.cast_mul, Rat.cast_intCast]
  rw [hvalue]
  refine ⟨⟨fun hsome ↦ ?_, fun h ↦ realPower?_mul_of_keeps h hu hr⟩,
    fun h ↦ (realPower?_mul_of_not_keeps h hu hr).2⟩
  by_contra h
  obtain ⟨hpos, hother⟩ := realPower?_mul_of_not_keeps h hu hr
  rw [hsome] at hother
  split at hother
  · have hself : r = -r := Option.some.inj hother
    linarith
  · cases hother

/-- The square root of a square. -/
theorem realPower?_half {a : ℝ} (ha : 0 ≤ a) : realPower? (a ^ 2) (1 / 2 : ℚ) = some a := by
  refine realPower?_eq_some.2 ⟨⟨fun _ ↦ by norm_num, fun h ↦ absurd h (sq_nonneg a).not_gt⟩, ?_⟩
  push_cast
  rw [← Real.sqrt_eq_rpow, Real.sqrt_sq ha]

/-- The root of a fourth power is a square, of negative numbers too. -/
theorem realValue?_nested_fourth :
    realPower? (-3) (4 : ℤ) = some (9 ^ 2) ∧ realPower? (9 ^ 2) (1 / 2 : ℚ) = some 9 ∧
      realValue? (fun _ ↦ -3) (powOf (powOf (.sym "x") (.num (4 : ℤ))) (.num (1 / 2))) =
        some 9 := by
  have hu : realPower? (-3) (4 : ℤ) = some (9 ^ 2) := by
    refine realPower?_eq_some.2 ⟨hasRealPower_intCast (by norm_num) 4, ?_⟩
    rw [Real.rpow_intCast]
    norm_num
  have hr : realPower? (9 ^ 2) (1 / 2 : ℚ) = some 9 := realPower?_half (by norm_num)
  have hkeeps : KeepsNested (-3) 4 (1 / 2) := .inr (.inr ⟨1, by norm_num⟩)
  exact ⟨hu, hr, (realValue?_nested_iff (fun _ ↦ -3) "x" 4 (1 / 2) hu hr).1.2 hkeeps⟩

/-- The root of a square is the symbol itself, and so has the wrong sign below zero. -/
theorem realValue?_root_of_square :
    let e := powOf (powOf (.sym "x") (.num (2 : ℤ))) (.num (1 / 2))
    realPower? (-3) (2 : ℤ) = some (3 ^ 2) ∧ realPower? (3 ^ 2) (1 / 2 : ℚ) = some 3 ∧
      e = .sym "x" ∧ realValue? (fun _ ↦ -3) e ≠ some 3 := by
  intro e
  have he : e = .sym "x" := by
    simp only [e, powOf_powOf_sym]
    norm_num [powOf]
  refine ⟨?_, realPower?_half (by norm_num), he, ?_⟩
  · refine realPower?_eq_some.2 ⟨hasRealPower_intCast (by norm_num) 2, ?_⟩
    rw [Real.rpow_intCast]
    norm_num
  · rw [he, realValue?]
    norm_num

end ExprCompiler.Expr
