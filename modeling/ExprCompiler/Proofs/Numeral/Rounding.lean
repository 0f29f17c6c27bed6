import ExprCompiler.Numeral.Binary
import Mathlib.Algebra.Order.Field.Power
import Mathlib.Tactic.FieldSimp
import Mathlib.Tactic.Linarith
import Mathlib.Tactic.NormNum
import Mathlib.Tactic.Positivity
import Mathlib.Tactic.Ring

/-!
# Rounding to the nearest double

Which rationals round to a given double. Main statement: a quotient that lies no further from a
double than half way to its neighbours, ties only with an even mantissa, rounds to it
(`Numeral.nearestQuotient_of_rounds`).
-/

namespace ExprCompiler.Numeral

/-! ## Natural numbers -/

/-- The natural number that a quotient is nearest to, an even one on a tie. -/
theorem divHalfEven_eq {n d k : Nat} (hd : 0 < d) (hlow : 2 * (k * d) ≤ 2 * n + d)
    (hhigh : 2 * n ≤ 2 * (k * d) + d)
    (htie : 2 * (k * d) = 2 * n + d ∨ 2 * n = 2 * (k * d) + d → k % 2 = 0) :
    divHalfEven n d = k := by
  have hdiv : d * (n / d) + n % d = n := Nat.div_add_mod n d
  have hmod : n % d < d := Nat.mod_lt n hd
  rw [divHalfEven]
  generalize n / d = q at hdiv
  generalize n % d = r at hdiv hmod
  have hcases : k = q ∨ k = q + 1 := by
    rcases Nat.lt_trichotomy k q with hlt | rfl | hgt
    · have : (k + 1) * d ≤ d * q := by
        rw [Nat.mul_comm d q]
        exact Nat.mul_le_mul_right d hlt
      rw [Nat.add_mul] at this
      omega
    · exact .inl rfl
    · rcases Nat.eq_or_lt_of_le hgt with rfl | hgt
      · exact .inr rfl
      · have : (q + 2) * d ≤ k * d := Nat.mul_le_mul_right d hgt
        rw [Nat.add_mul, Nat.mul_comm q d] at this
        omega
  rcases hcases with rfl | rfl
  · rw [Nat.mul_comm k d] at hlow hhigh htie
    split_ifs <;> omega
  · rw [Nat.add_mul, Nat.mul_comm q d] at hlow hhigh htie
    split_ifs <;> omega

/-- Rounding moves a quotient by half a unit at most. -/
theorem divHalfEven_near (n : Nat) {d : Nat} (hd : 0 < d) :
    (n : ℚ) / d - 1 / 2 ≤ divHalfEven n d ∧ (divHalfEven n d : ℚ) ≤ n / d + 1 / 2 := by
  have hd' : (0 : ℚ) < d := by exact_mod_cast hd
  have hdiv : d * (n / d) + n % d = n := Nat.div_add_mod n d
  have hmod : n % d < d := Nat.mod_lt n hd
  have hnear : 2 * n ≤ 2 * (d * divHalfEven n d) + d ∧ 2 * (d * divHalfEven n d) ≤ 2 * n + d := by
    rw [divHalfEven]
    generalize n / d = q at hdiv
    generalize n % d = r at hdiv hmod
    split_ifs with hlt hgt
    · omega
    · rw [Nat.mul_add]
      omega
    · rcases Nat.mod_two_eq_zero_or_one q with hq | hq
      · rw [hq, Nat.add_zero]
        omega
      · rw [hq, Nat.mul_add]
        omega
  have hlow : (2 * n : ℚ) ≤ 2 * (d * divHalfEven n d) + d := by exact_mod_cast hnear.1
  have hhigh : (2 * (d * divHalfEven n d) : ℚ) ≤ 2 * n + d := by exact_mod_cast hnear.2
  constructor
  · rw [sub_le_iff_le_add, div_le_iff₀ hd']
    linarith
  · rw [← sub_le_iff_le_add, le_div_iff₀ hd']
    linarith

/-- A quotient within half a unit of a natural number, strictly unless that is even. -/
theorem divHalfEven_of_near {n d k : Nat} (hd : 0 < d) (hlow : (k : ℚ) - 1 / 2 ≤ n / d)
    (hhigh : (n : ℚ) / d ≤ k + 1 / 2)
    (htie : (n : ℚ) / d = k - 1 / 2 ∨ (n : ℚ) / d = k + 1 / 2 → k % 2 = 0) :
    divHalfEven n d = k := by
  have hd' : (0 : ℚ) < d := by exact_mod_cast hd
  refine divHalfEven_eq hd ?_ ?_ ?_
  · rw [le_div_iff₀ hd'] at hlow
    have : (2 * (k * d) : ℚ) ≤ 2 * n + d := by linarith
    exact_mod_cast this
  · rw [div_le_iff₀ hd'] at hhigh
    have : (2 * n : ℚ) ≤ 2 * (k * d) + d := by linarith
    exact_mod_cast this
  · rintro (h | h)
    · refine htie (.inl ?_)
      have h : (2 * (k * d) : ℚ) = 2 * n + d := by exact_mod_cast h
      rw [div_eq_iff hd'.ne']
      linarith
    · refine htie (.inr ?_)
      have h : (2 * n : ℚ) = 2 * (k * d) + d := by exact_mod_cast h
      rw [div_eq_iff hd'.ne']
      linarith

/-- A smaller quotient is not rounded to a greater number. -/
theorem divHalfEven_mono {n d n' d' : Nat} (hd : 0 < d) (hd' : 0 < d')
    (h : (n : ℚ) / d ≤ n' / d') : divHalfEven n d ≤ divHalfEven n' d' := by
  obtain ⟨-, hhigh⟩ := divHalfEven_near n hd
  obtain ⟨hlow, -⟩ := divHalfEven_near n' hd'
  by_contra hlt
  have hstep : (divHalfEven n' d' : ℚ) + 1 ≤ divHalfEven n d := by exact_mod_cast not_le.1 hlt
  -- Only one quotient is within half a unit of both numbers, and it goes to the even one.
  generalize hk : divHalfEven n' d' = k at *
  have hn : (n : ℚ) / d = k + 1 / 2 := by linarith
  have hn' : (n' : ℚ) / d' = k + 1 / 2 := by linarith
  rcases Nat.mod_two_eq_zero_or_one k with heven | hodd
  · have : divHalfEven n d = k :=
      divHalfEven_of_near hd (by linarith) hn.le fun _ ↦ heven
    omega
  · have : divHalfEven n' d' = k + 1 := by
      refine divHalfEven_of_near hd' ?_ ?_ fun _ ↦ by omega
      · push_cast
        linarith
      · push_cast
        linarith
    omega

/-! ## Exponents -/

/-- The quotient of `n` and `d` in units of `2^e`, as a fraction. -/
def inUnits (n d : Nat) (e : Int) : Nat × Nat :=
  if 0 ≤ e then (n, d * Nat.pow 2 e.toNat) else (n * Nat.pow 2 (-e).toNat, d)

/-- A quotient in units of a power of two is the quotient divided by the unit. -/
theorem inUnits_spec {n d : Nat} (hd : 0 < d) (e : Int) :
    0 < (inUnits n d e).2 ∧ ((inUnits n d e).1 : ℚ) / (inUnits n d e).2 = n / d / 2 ^ e := by
  rw [inUnits]
  split_ifs with he
  · obtain ⟨k, rfl⟩ := Int.eq_ofNat_of_zero_le he
    refine ⟨Nat.mul_pos hd (Nat.pow_pos (by decide)), ?_⟩
    simp [div_div]
  · obtain ⟨k, hk⟩ := Int.eq_ofNat_of_zero_le (show 0 ≤ -e by omega)
    obtain rfl : e = -k := by omega
    refine ⟨hd, ?_⟩
    simp
    ring

/-- Whether the double nearest to `v` has a mantissa in units of `2^e`. -/
structure Fits (v : ℚ) (e : Int) : Prop where
  least : -1074 ≤ e
  below : v / 2 ^ e < 2 ^ 53
  normal : e = -1074 ∨ 2 ^ 52 ≤ v / 2 ^ e

/-- The greater of two rationals has the greater units. -/
theorem Fits.mono {v w : ℚ} {e e' : Int} (h : Fits v e) (h' : Fits w e') (hle : w ≤ v) :
    e' ≤ e := by
  by_contra hlt
  have hstep : e + 1 ≤ e' := by omega
  have hne : e' ≠ -1074 := by
    have := h.least
    omega
  have hpow : (2 : ℚ) * 2 ^ e ≤ 2 ^ e' := by
    rw [mul_comm, ← zpow_add_one₀ two_ne_zero]
    exact zpow_le_zpow_right₀ one_le_two hstep
  have hlow := h'.normal.resolve_left hne
  have hhigh := h.below
  rw [le_div_iff₀ (by positivity)] at hlow
  rw [div_lt_iff₀ (by positivity)] at hhigh
  have hscaled : (2 ^ 52 : ℚ) * (2 * 2 ^ e) ≤ 2 ^ 52 * 2 ^ e' := by gcongr
  linarith

/-- The exponent that fits a magnitude is unique. -/
theorem Fits.unique {v : ℚ} {e e' : Int} (h : Fits v e) (h' : Fits v e') : e = e' :=
  le_antisymm (h'.mono h le_rfl) (h.mono h' le_rfl)

/-- The exponent that rounding works with. -/
def unitExponent (n d : Nat) : Int :=
  let low := max ((Nat.log2 n : Int) - (Nat.log2 d : Int) - 53) (-1074)
  if 2 * leadingBit ≤ (inUnits n d low).1 / (inUnits n d low).2 then low + 1 else low

/-- The nearest double to a quotient is its rounding to the unit that fits. -/
theorem nearestQuotient_eq {n d : Nat} (hn : 0 < n) (hd : 0 < d) :
    nearestQuotient n d =
      assemble (divHalfEven (inUnits n d (unitExponent n d)).1 (inUnits n d (unitExponent n d)).2)
        (unitExponent n d) := by
  rw [nearestQuotient, if_neg (by simp [hn.ne', hd.ne'])]
  rfl

theorem cast_log2_bounds {n : Nat} (hn : 0 < n) :
    (2 : ℚ) ^ (n.log2 : Int) ≤ n ∧ (n : ℚ) < 2 ^ (n.log2 + 1 : Int) := by
  constructor
  · rw [zpow_natCast]
    exact_mod_cast Nat.log2_self_le hn.ne'
  · exact_mod_cast Nat.lt_log2_self

/-- The logarithms of two numbers tell their quotient up to a factor of two. -/
theorem quotient_bounds {n d : Nat} (hn : 0 < n) (hd : 0 < d) :
    (2 : ℚ) ^ ((n.log2 : Int) - d.log2 - 1) < n / d ∧
      (n : ℚ) / d < 2 ^ ((n.log2 : Int) - d.log2 + 1) := by
  obtain ⟨hn₁, hn₂⟩ := cast_log2_bounds hn
  obtain ⟨hd₁, hd₂⟩ := cast_log2_bounds hd
  have hd' : (0 : ℚ) < d := by exact_mod_cast hd
  constructor
  · rw [lt_div_iff₀ hd']
    calc (2 : ℚ) ^ ((n.log2 : Int) - d.log2 - 1) * d
        < 2 ^ ((n.log2 : Int) - d.log2 - 1) * 2 ^ (d.log2 + 1 : Int) := by gcongr
      _ = 2 ^ (n.log2 : Int) := by
          rw [← zpow_add₀ two_ne_zero]
          congr 1
          ring
      _ ≤ n := hn₁
  · rw [div_lt_iff₀ hd']
    calc (n : ℚ) < 2 ^ (n.log2 + 1 : Int) := hn₂
      _ = 2 ^ ((n.log2 : Int) - d.log2 + 1) * 2 ^ (d.log2 : Int) := by
          rw [← zpow_add₀ two_ne_zero]
          congr 1
          ring
      _ ≤ 2 ^ ((n.log2 : Int) - d.log2 + 1) * d := by gcongr

theorem le_inUnits_iff {n d : Nat} (hd : 0 < d) (e : Int) (k : Nat) :
    k ≤ (inUnits n d e).1 / (inUnits n d e).2 ↔ (k : ℚ) ≤ n / d / 2 ^ e := by
  obtain ⟨hpos, heq⟩ := inUnits_spec hd e
  rw [← heq, Nat.le_div_iff_mul_le hpos, le_div_iff₀ (by exact_mod_cast hpos)]
  exact_mod_cast Iff.rfl

/-- The chosen exponent fits the quotient. -/
theorem fits_unitExponent {n d : Nat} (hn : 0 < n) (hd : 0 < d) :
    Fits ((n : ℚ) / d) (unitExponent n d) := by
  obtain ⟨hlow, hhigh⟩ := quotient_bounds hn hd
  rw [unitExponent]
  generalize (n.log2 : Int) - d.log2 = t at hlow hhigh
  generalize he : max (t - 53) (-1074) = e
  have hleast : -1074 ≤ e := by omega
  simp only [le_inUnits_iff hd]
  split_ifs with hle
  · -- One more bit than the mantissa holds: the next exponent, which cuts it off.
    refine ⟨by omega, ?_, .inr ?_⟩
    · rw [div_lt_iff₀ (by positivity), ← zpow_natCast, ← zpow_add₀ two_ne_zero]
      refine hhigh.trans_le (zpow_le_zpow_right₀ one_le_two ?_)
      push_cast
      omega
    · rw [zpow_add_one₀ two_ne_zero, ← div_div, le_div_iff₀ two_pos]
      refine le_trans ?_ hle
      norm_num [leadingBit]
  · refine ⟨hleast, ?_, ?_⟩
    · refine (not_le.1 hle).trans_eq ?_
      norm_num [leadingBit]
    · rcases max_choice (t - 53) (-1074) with hmax | hmax
      · right
        rw [le_div_iff₀ (by positivity), ← zpow_natCast, ← zpow_add₀ two_ne_zero]
        refine le_trans (zpow_le_zpow_right₀ one_le_two ?_) hlow.le
        push_cast
        omega
      · left
        omega

/-! ## Doubles -/

namespace Binary

/-- Whether mantissa and exponent are those of a positive double: the mantissa has 53 bits, or
fewer below the least exponent. -/
structure Canonical (b : Binary) : Prop where
  pos : 0 < b.mantissa
  below : b.mantissa < 2 * leadingBit
  least : -1074 ≤ b.exponent
  normal : b.exponent = -1074 ∨ leadingBit ≤ b.mantissa

/-- How far, in units of the mantissa, it is half way to the next smaller double. Below a power of
two doubles lie closer. -/
def gap (b : Binary) : ℚ :=
  if b.mantissa = leadingBit ∧ b.exponent ≠ -1074 then 1 / 4 else 1 / 2

/-- Whether a rational lies within half way to the doubles on either side, and strictly so unless
the mantissa is even. -/
structure Rounds (b : Binary) (v : ℚ) : Prop where
  low : (b.mantissa - b.gap) * 2 ^ b.exponent ≤ v
  high : v ≤ (b.mantissa + 1 / 2) * 2 ^ b.exponent
  strict : b.mantissa % 2 = 1 →
    (b.mantissa - b.gap) * 2 ^ b.exponent < v ∧ v < (b.mantissa + 1 / 2) * 2 ^ b.exponent

end Binary

/-- A mantissa that has carried is one more bit. -/
theorem assemble_carry {e : Int} (he : -1074 < e) :
    assemble (2 * leadingBit) (e - 1) = assemble leadingBit e := by
  have hbits : (e - 1 + 1074).toNat * leadingBit + 2 * leadingBit =
      (e + 1074).toNat * leadingBit + leadingBit := by
    have : (e + 1074).toNat = (e - 1 + 1074).toNat + 1 := by omega
    rw [this]
    ring
  rw [assemble, assemble, hbits]

theorem cast_leadingBit : (leadingBit : ℚ) = 2 ^ 52 := by norm_num [leadingBit]

namespace Binary

variable {b : Binary} {v : ℚ}

theorem gap_le (b : Binary) : b.gap ≤ 1 / 2 := by
  rw [gap]
  split_ifs <;> norm_num

/-- The rounding interval in units of the mantissa. -/
theorem Rounds.units (h : b.Rounds v) :
    b.mantissa - b.gap ≤ v / 2 ^ b.exponent ∧ v / 2 ^ b.exponent ≤ b.mantissa + 1 / 2 ∧
      (b.mantissa % 2 = 1 → b.mantissa - b.gap < v / 2 ^ b.exponent ∧
        v / 2 ^ b.exponent < b.mantissa + 1 / 2) := by
  have hpow : (0 : ℚ) < 2 ^ b.exponent := by positivity
  refine ⟨(le_div_iff₀ hpow).2 h.low, (div_le_iff₀ hpow).2 h.high, fun hodd ↦ ?_⟩
  exact ⟨(lt_div_iff₀ hpow).2 (h.strict hodd).1, (div_lt_iff₀ hpow).2 (h.strict hodd).2⟩

theorem Rounds.below (hb : b.Canonical) (h : b.Rounds v) : v / 2 ^ b.exponent < 2 ^ 53 := by
  obtain ⟨-, hhigh, -⟩ := h.units
  have hm : (b.mantissa : ℚ) + 1 ≤ 2 * leadingBit := by exact_mod_cast hb.below
  rw [cast_leadingBit] at hm
  linarith

/-- Unless rounding is to a power of two from below, the mantissa's units are those of rounding. -/
theorem Rounds.fits (hb : b.Canonical) (h : b.Rounds v)
    (hnormal : b.exponent = -1074 ∨ 2 ^ 52 ≤ v / 2 ^ b.exponent) : Fits v b.exponent :=
  ⟨hb.least, h.below hb, hnormal⟩

/-- From below, a power of two is rounded to in units half as large. -/
theorem Rounds.carries (hb : b.Canonical) (h : b.Rounds v) (hne : b.exponent ≠ -1074)
    (hlt : v / 2 ^ b.exponent < 2 ^ 52) :
    b.mantissa = leadingBit ∧ 2 ^ 53 - 1 / 2 ≤ v / 2 ^ (b.exponent - 1) ∧
      v / 2 ^ (b.exponent - 1) < 2 ^ 53 := by
  obtain ⟨hlow, -, -⟩ := h.units
  have hm : b.mantissa = leadingBit := by
    by_contra hm
    have hge : leadingBit + 1 ≤ b.mantissa := by
      have := hb.normal.resolve_left hne
      omega
    have hge : (leadingBit : ℚ) + 1 ≤ b.mantissa := by exact_mod_cast hge
    rw [cast_leadingBit] at hge
    linarith [b.gap_le]
  have hgap : b.gap = 1 / 4 := if_pos ⟨hm, hne⟩
  have hhalf : v / 2 ^ (b.exponent - 1) = 2 * (v / 2 ^ b.exponent) := by
    rw [zpow_sub_one₀ two_ne_zero]
    field_simp
  rw [hm, cast_leadingBit, hgap] at hlow
  refine ⟨hm, ?_, ?_⟩
  · rw [hhalf]
    linarith
  · rw [hhalf]
    linarith

end Binary

/-- Every quotient in the rounding interval of a double rounds to the double. -/
theorem nearestQuotient_of_rounds {b : Binary} (hb : b.Canonical) {n d : Nat} (hn : 0 < n)
    (hd : 0 < d) (h : b.Rounds ((n : ℚ) / d)) :
    nearestQuotient n d = assemble b.mantissa b.exponent := by
  have hfits := fits_unitExponent hn hd
  obtain ⟨hunits, hquotient⟩ := inUnits_spec (n := n) hd (unitExponent n d)
  rw [nearestQuotient_eq hn hd]
  by_cases hnormal : b.exponent = -1074 ∨ 2 ^ 52 ≤ (n : ℚ) / d / 2 ^ b.exponent
  · obtain ⟨hlow, hhigh, hstrict⟩ := h.units
    rw [hfits.unique (h.fits hb hnormal)] at hunits hquotient ⊢
    congr 1
    refine divHalfEven_of_near hunits ?_ ?_ ?_
    · rw [hquotient]
      linarith [b.gap_le]
    · rw [hquotient]
      exact hhigh
    · rw [hquotient]
      intro htie
      by_contra hodd
      obtain ⟨hlow, hhigh⟩ := hstrict (by omega)
      rcases htie with htie | htie
      · linarith [b.gap_le]
      · linarith
  · rw [not_or, not_le] at hnormal
    obtain ⟨hm, hlow, hhigh⟩ := h.carries hb hnormal.1 hnormal.2
    have hleast := hb.least
    have hfits' : Fits ((n : ℚ) / d) (b.exponent - 1) := by
      refine ⟨by omega, hhigh, .inr ?_⟩
      linarith
    rw [hfits.unique hfits'] at hunits hquotient ⊢
    rw [hm, ← assemble_carry (by omega)]
    congr 1
    have hcast : ((2 * leadingBit : Nat) : ℚ) = 2 ^ 53 := by norm_num [leadingBit]
    refine divHalfEven_of_near hunits ?_ ?_ fun _ ↦ by decide
    · rw [hquotient, hcast]
      exact hlow
    · rw [hquotient, hcast]
      linarith

end ExprCompiler.Numeral
