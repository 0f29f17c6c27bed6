import ExprCompiler.Numeral.Shortest
import ExprCompiler.Proofs.Numeral.Rounding

/-!
# The shortest digits of a double

The digits that are printed for a double lie in its rounding interval: seventeen of them always
suffice. Main statement: `Numeral.Binary.rounds_shortest`.
-/

namespace ExprCompiler.Numeral

/-! ## Decades -/

/-- The estimate of the decimal logarithm is never too large. -/
theorem ten_zpow_le_two_zpow {t g : Int} (hlow : -10000 ≤ t) (hhigh : t ≤ 10000)
    (hg : g * 100000 ≤ t * 30103 - 100000) : (10 : ℚ) ^ g ≤ 2 ^ t := by
  have hcomm (a : ℚ) (k : Nat) : (a ^ k) ^ t = (a ^ t) ^ k := by
    rw [← zpow_natCast, ← zpow_natCast, zpow_comm]
  have hpow (k : Nat) : ((10 : ℚ) ^ g) ^ k = 10 ^ (g * k) := by rw [zpow_mul, zpow_natCast]
  rcases le_or_gt 0 t with ht | ht
  · -- `59 / 196` is close enough to the logarithm of two from below,
    rw [← pow_le_pow_iff_left₀ (by positivity) (by positivity) (show 196 ≠ 0 by decide)]
    calc ((10 : ℚ) ^ g) ^ 196 = 10 ^ (g * (196 : Nat)) := hpow 196
      _ ≤ 10 ^ ((59 : Nat) * t) := zpow_le_zpow_right₀ (by norm_num) (by omega)
      _ = ((10 : ℚ) ^ 59) ^ t := by rw [zpow_mul, zpow_natCast]
      _ ≤ (2 ^ 196) ^ t := zpow_le_zpow_left₀ ht (by norm_num) (by norm_num)
      _ = (2 ^ t) ^ 196 := hcomm 2 196
  · -- and `28 / 93` from above.
    rw [← pow_le_pow_iff_left₀ (by positivity) (by positivity) (show 93 ≠ 0 by decide)]
    calc ((10 : ℚ) ^ g) ^ 93 = 10 ^ (g * (93 : Nat)) := hpow 93
      _ ≤ 10 ^ ((28 : Nat) * t) := zpow_le_zpow_right₀ (by norm_num) (by omega)
      _ = ((10 : ℚ) ^ 28) ^ t := by rw [zpow_mul, zpow_natCast]
      _ ≤ (2 ^ 93) ^ t := by
          obtain ⟨k, hk⟩ := Int.eq_ofNat_of_zero_le (show 0 ≤ -t by omega)
          obtain rfl : t = -k := by omega
          rw [zpow_neg, zpow_neg, zpow_natCast, zpow_natCast]
          gcongr
          norm_num
      _ = (2 ^ t) ^ 93 := hcomm 2 93

/-- Whether a power of ten is at most the quotient of `n` and `d`. -/
def reaches (n d : Nat) (k : Int) : Bool :=
  if 0 ≤ k then Nat.pow 10 k.toNat * d ≤ n else d ≤ n * Nat.pow 10 (-k).toNat

theorem ten_zpow_le_of_reaches {n d : Nat} {k : Int} (hd : 0 < d) (h : reaches n d k = true) :
    (10 : ℚ) ^ k ≤ n / d := by
  rw [le_div_iff₀ (by exact_mod_cast hd)]
  rw [reaches] at h
  split_ifs at h with hk
  · obtain ⟨j, rfl⟩ := Int.eq_ofNat_of_zero_le hk
    have h := of_decide_eq_true h
    rw [zpow_natCast]
    exact_mod_cast h
  · obtain ⟨j, hj⟩ := Int.eq_ofNat_of_zero_le (show 0 ≤ -k by omega)
    obtain rfl : k = -j := by omega
    have h := of_decide_eq_true h
    rw [neg_neg] at h
    rw [zpow_neg, zpow_natCast, inv_mul_le_iff₀ (by positivity), mul_comm]
    exact_mod_cast h

/-- The power of ten that is found for a quotient is at most the quotient. -/
theorem ten_zpow_decade_le {n d : Nat} (hn : 0 < n) (hd : 0 < d)
    (hlow : -10000 ≤ (n.log2 : Int) - d.log2 - 1) (hhigh : (n.log2 : Int) - d.log2 - 1 ≤ 10000) :
    (10 : ℚ) ^ decade n d ≤ n / d := by
  obtain ⟨guess, hguess⟩ :
      ∃ g, g = Int.fdiv (((n.log2 : Int) - d.log2 - 1) * 30103) 100000 - 1 := ⟨_, rfl⟩
  have hdecade : decade n d =
      if reaches n d (guess + 3) then guess + 3
      else if reaches n d (guess + 2) then guess + 2
      else if reaches n d (guess + 1) then guess + 1
      else guess := by
    rw [hguess]
    rfl
  rw [hdecade]
  split_ifs with h₃ h₂ h₁
  · exact ten_zpow_le_of_reaches hd h₃
  · exact ten_zpow_le_of_reaches hd h₂
  · exact ten_zpow_le_of_reaches hd h₁
  · refine le_trans (ten_zpow_le_two_zpow hlow hhigh ?_) (quotient_bounds hn hd).1.le
    rw [hguess, Int.fdiv_eq_ediv_of_nonneg _ (by decide)]
    omega

/-! ## Intervals -/

/-- The value of a decimal number. -/
def Decimal.value (d : Decimal) : ℚ := d.digits * 10 ^ d.exponent

/-- Stripping trailing zeros keeps the value. -/
theorem Decimal.value_strip (fuel : Nat) (d : Decimal) : (d.strip fuel).value = d.value := by
  induction fuel generalizing d with
  | zero => rfl
  | succ fuel ih =>
      rw [strip]
      split_ifs with h
      · obtain ⟨k, hk⟩ : 10 ∣ d.digits := by
          rw [Bool.and_eq_true, beq_iff_eq] at h
          exact Nat.dvd_of_mod_eq_zero h.2
        rw [ih, value, value, hk, Nat.mul_div_cancel_left k (by decide), zpow_add_one₀ (by decide)]
        push_cast
        ring
      · rfl

namespace Interval

variable {i : Interval} {p : Int}

/-- Whether a rational lies in an interval, ends included if it is closed. -/
def Contains (i : Interval) (v : ℚ) : Prop :=
  if i.closed then (i.low : ℚ) / i.den ≤ v ∧ v ≤ (i.high : ℚ) / i.den
  else (i.low : ℚ) / i.den < v ∧ v < (i.high : ℚ) / i.den

/-- What the grid of multiples of `10^p` scales numerators by. -/
def scale (p : Int) : Nat := if 0 ≤ p then 1 else Nat.pow 10 (-p).toNat

/-- The numerator of `10^p` after scaling. -/
def unit (i : Interval) (p : Int) : Nat := if 0 ≤ p then i.den * Nat.pow 10 p.toNat else i.den

theorem scale_pos (p : Int) : 0 < scale p := by
  rw [scale]
  split_ifs
  · exact Nat.one_pos
  · exact Nat.pow_pos (by decide)

theorem cast_unit (i : Interval) (p : Int) : (i.unit p : ℚ) = i.den * 10 ^ p * scale p := by
  rw [unit, scale]
  split_ifs with hp
  · obtain ⟨k, rfl⟩ := Int.eq_ofNat_of_zero_le hp
    simp
  · obtain ⟨k, hk⟩ := Int.eq_ofNat_of_zero_le (show 0 ≤ -p by omega)
    obtain rfl : p = -k := by omega
    have hne : (10 : ℚ) ^ k ≠ 0 := by positivity
    simp [hne]

/-- Whether a multiple of `10^p` lies in the interval. -/
def inside (i : Interval) (p : Int) (c : Nat) : Bool :=
  if i.closed then i.low * scale p ≤ c * i.unit p && c * i.unit p ≤ i.high * scale p
  else i.low * scale p < c * i.unit p && c * i.unit p < i.high * scale p

/-- The test for a grid point is membership in the interval. -/
theorem inside_iff (hden : 0 < i.den) (c : Nat) :
    i.inside p c = true ↔ i.Contains (c * 10 ^ p) := by
  have hden' : (0 : ℚ) < i.den := by exact_mod_cast hden
  have hscale : (0 : ℚ) < scale p := by exact_mod_cast scale_pos p
  have hcast : ((c * i.unit p : Nat) : ℚ) = c * 10 ^ p * i.den * scale p := by
    rw [Nat.cast_mul, cast_unit]
    ring
  have hle (a : Nat) : a * scale p ≤ c * i.unit p ↔ (a : ℚ) / i.den ≤ c * 10 ^ p := by
    rw [div_le_iff₀ hden', ← mul_le_mul_iff_of_pos_right hscale, ← hcast]
    exact_mod_cast Iff.rfl
  have hge (a : Nat) : c * i.unit p ≤ a * scale p ↔ c * 10 ^ p ≤ (a : ℚ) / i.den := by
    rw [le_div_iff₀ hden', ← mul_le_mul_iff_of_pos_right hscale, ← hcast]
    exact_mod_cast Iff.rfl
  rw [inside, Contains]
  split_ifs
  · rw [Bool.and_eq_true, decide_eq_true_iff, decide_eq_true_iff, hle, hge]
  · rw [Bool.and_eq_true, decide_eq_true_iff, decide_eq_true_iff]
    exact and_congr (by rw [← not_le, hge, not_le]) (by rw [← not_le, hle, not_le])

/-- The nearest multiple of `10^p`, or the one on the other side of the value. -/
theorem onGrid?_eq (i : Interval) (p : Int) :
    i.onGrid? p =
      let near := divHalfEven (i.value * scale p) (i.unit p)
      let down := i.value * scale p / i.unit p
      let far := if near == down then down + 1 else down
      if i.inside p near then some ⟨near, p⟩ else if i.inside p far then some ⟨far, p⟩ else none :=
  rfl

/-- A grid point that is found lies in the interval. -/
theorem contains_of_onGrid? (hden : 0 < i.den) {d : Decimal} (h : i.onGrid? p = some d) :
    i.Contains d.value := by
  rw [onGrid?_eq] at h
  dsimp only at h
  split_ifs at h with hnear hfar hfar
  all_goals
    cases h
    rw [Decimal.value, ← inside_iff hden]
    assumption

/-- A grid that is finer than the interval on either side of the value has a point in it. -/
theorem isSome_onGrid? (hden : 0 < i.den)
    (hlow : (i.low : ℚ) / i.den < i.value / i.den - 10 ^ p / 2)
    (hhigh : (i.value : ℚ) / i.den + 10 ^ p / 2 < i.high / i.den) : (i.onGrid? p).isSome = true := by
  have hinside : i.inside p (divHalfEven (i.value * scale p) (i.unit p)) = true := by
    have hden' : (0 : ℚ) < i.den := by exact_mod_cast hden
    have hscale : (0 : ℚ) < scale p := by exact_mod_cast scale_pos p
    have hpow : (0 : ℚ) < 10 ^ p := by positivity
    have hunit : 0 < i.unit p := by
      have : (0 : ℚ) < i.unit p := by
        rw [cast_unit]
        positivity
      exact_mod_cast this
    have hquotient : ((i.value * scale p : Nat) : ℚ) / i.unit p = i.value / i.den / 10 ^ p := by
      rw [Nat.cast_mul, cast_unit]
      field_simp
    obtain ⟨hdown, hup⟩ := divHalfEven_near (i.value * scale p) hunit
    rw [hquotient, div_sub' hpow.ne', div_le_iff₀ hpow] at hdown
    rw [hquotient, div_add' _ _ _ hpow.ne', le_div_iff₀ hpow] at hup
    rw [inside_iff hden, Contains]
    split_ifs
    · exact ⟨by linarith, by linarith⟩
    · exact ⟨by linarith, by linarith⟩
  rw [onGrid?_eq]
  dsimp only
  rw [if_pos hinside]
  rfl

end Interval

/-! ## Doubles -/

namespace Binary

variable {b : Binary}

/-- A multiple of a quarter of the mantissa's unit as a fraction. -/
theorem exists_interval_eq (b : Binary) :
    ∃ s d : Nat, 0 < s ∧ 0 < d ∧ (s : ℚ) / d = 2 ^ b.exponent / 4 ∧
      b.interval =
        ⟨(4 * b.mantissa - if b.mantissa == leadingBit && b.exponent != -1074 then 1 else 2) * s,
          4 * b.mantissa * s, (4 * b.mantissa + 2) * s, d, b.mantissa % 2 == 0⟩ := by
  have hquarter : (2 : ℚ) ^ b.exponent / 4 = 2 ^ (b.exponent - 2) := by
    rw [zpow_sub₀ two_ne_zero]
    norm_num
  rw [hquarter]
  generalize he : b.exponent - 2 = e
  rcases le_or_gt 0 e with hnonneg | hneg
  · obtain ⟨k, rfl⟩ := Int.eq_ofNat_of_zero_le hnonneg
    refine ⟨2 ^ k, 1, Nat.pow_pos (by decide), Nat.one_pos, by simp, ?_⟩
    rw [interval]
    simp [he]
  · obtain ⟨k, hk⟩ := Int.eq_ofNat_of_zero_le (show 0 ≤ -e by omega)
    obtain rfl : e = -k := by omega
    refine ⟨1, 2 ^ k, Nat.one_pos, Nat.pow_pos (by decide), by simp, ?_⟩
    have hk : k ≠ 0 := by omega
    rw [interval]
    simp [he, hk]

/-- The interval of a double is that of the rationals that round to it. -/
theorem interval_spec (hb : b.Canonical) :
    0 < b.interval.den ∧ 0 < b.interval.value ∧
      (b.interval.value : ℚ) / b.interval.den = b.mantissa * 2 ^ b.exponent ∧
      (b.interval.low : ℚ) / b.interval.den = (b.mantissa - b.gap) * 2 ^ b.exponent ∧
      (b.interval.high : ℚ) / b.interval.den = (b.mantissa + 1 / 2) * 2 ^ b.exponent ∧
      b.interval.closed = (b.mantissa % 2 == 0) := by
  obtain ⟨s, d, hs, hd, hquarter, heq⟩ := b.exists_interval_eq
  have hm := hb.pos
  have hd' : (d : ℚ) ≠ 0 := by exact_mod_cast hd.ne'
  have hscale (a : ℚ) : a * s / d = a / 4 * 2 ^ b.exponent := by
    rw [mul_div_assoc, hquarter]
    ring
  have hlow : ((4 * b.mantissa -
      if b.mantissa == leadingBit && b.exponent != -1074 then 1 else 2 : Nat) : ℚ) =
        4 * (b.mantissa - b.gap) := by
    rw [gap]
    by_cases hnarrow : b.mantissa = leadingBit ∧ b.exponent ≠ -1074
    · rw [if_pos hnarrow, if_pos (by simpa using hnarrow), Nat.cast_sub (by omega)]
      push_cast
      ring
    · rw [if_neg hnarrow, if_neg (by simpa using hnarrow), Nat.cast_sub (by omega)]
      push_cast
      ring
  rw [heq]
  refine ⟨hd, by positivity, ?_, ?_, ?_, rfl⟩
  · rw [Nat.cast_mul, hscale]
    push_cast
    ring
  · rw [Nat.cast_mul, hscale, hlow]
    ring
  · rw [Nat.cast_mul, hscale]
    push_cast
    ring

/-- What lies in the interval of a double rounds to it. -/
theorem rounds_of_contains (hb : b.Canonical) {v : ℚ} (h : b.interval.Contains v) : b.Rounds v := by
  obtain ⟨-, -, -, hlow, hhigh, hclosed⟩ := interval_spec hb
  rw [Interval.Contains, hlow, hhigh, hclosed] at h
  split_ifs at h with heven
  · refine ⟨h.1, h.2, fun hodd ↦ ?_⟩
    rw [beq_iff_eq] at heven
    omega
  · exact ⟨h.1.le, h.2.le, fun _ ↦ h⟩

/-- Seventeen digits tell a double from its neighbours. -/
theorem half_ulp_lt (hb : b.Canonical) {k : Int}
    (hk : (10 : ℚ) ^ k ≤ b.mantissa * 2 ^ b.exponent) :
    (10 : ℚ) ^ (k - 16) / 2 < b.gap * 2 ^ b.exponent := by
  have hpow : (0 : ℚ) < 2 ^ b.exponent := by positivity
  have hgap : (b.mantissa : ℚ) / 2 ^ 54 ≤ b.gap := by
    rw [gap]
    split_ifs with h
    · rw [h.1, cast_leadingBit]
      norm_num
    · have hm : (b.mantissa : ℚ) ≤ 2 * leadingBit := by exact_mod_cast hb.below.le
      rw [cast_leadingBit] at hm
      rw [div_le_iff₀ (by norm_num)]
      linarith
  calc (10 : ℚ) ^ (k - 16) / 2 = 10 ^ k / (2 * 10 ^ 16) := by
        rw [zpow_sub₀ (by norm_num)]
        norm_num
        ring
    _ ≤ b.mantissa * 2 ^ b.exponent / (2 * 10 ^ 16) := by gcongr
    _ < b.mantissa * 2 ^ b.exponent / 2 ^ 54 := by
        have hm : (0 : ℚ) < b.mantissa := by exact_mod_cast hb.pos
        exact div_lt_div_of_pos_left (by positivity) (by positivity) (by norm_num)
    _ = b.mantissa / 2 ^ 54 * 2 ^ b.exponent := by ring
    _ ≤ b.gap * 2 ^ b.exponent := by gcongr

/-- The magnitudes of finite doubles lie between the least of them and `2^1024`. -/
theorem Canonical.bounds (hb : b.Canonical) (hfinite : b.exponent ≤ 971) :
    (2 : ℚ) ^ (-1074 : Int) ≤ b.mantissa * 2 ^ b.exponent ∧
      (b.mantissa : ℚ) * 2 ^ b.exponent < 2 ^ (1024 : Int) := by
  have hpow : (0 : ℚ) < 2 ^ b.exponent := by positivity
  have hm : (1 : ℚ) ≤ b.mantissa := by exact_mod_cast hb.pos
  have hm' : (b.mantissa : ℚ) < 2 * leadingBit := by exact_mod_cast hb.below
  constructor
  · calc (2 : ℚ) ^ (-1074 : Int) ≤ 2 ^ b.exponent := zpow_le_zpow_right₀ one_le_two hb.least
      _ = 1 * 2 ^ b.exponent := (one_mul _).symm
      _ ≤ b.mantissa * 2 ^ b.exponent := by gcongr
  · calc (b.mantissa : ℚ) * 2 ^ b.exponent < 2 * leadingBit * 2 ^ b.exponent := by gcongr
      _ = 2 ^ (53 + b.exponent) := by
          rw [cast_leadingBit, zpow_add₀ two_ne_zero]
          norm_num
      _ ≤ 2 ^ (1024 : Int) := zpow_le_zpow_right₀ one_le_two (by omega)

/-- The decade of a double's magnitude is found from below. -/
theorem ten_zpow_decade_interval_le (hb : b.Canonical) (hfinite : b.exponent ≤ 971) :
    (10 : ℚ) ^ decade b.interval.value b.interval.den ≤ b.mantissa * 2 ^ b.exponent := by
  obtain ⟨hden, hvalue, heq, -⟩ := interval_spec hb
  obtain ⟨hlow, hhigh⟩ := quotient_bounds hvalue hden
  obtain ⟨hleast, hbound⟩ := hb.bounds hfinite
  rw [heq] at hlow hhigh
  have hleast := (zpow_lt_zpow_iff_right₀ one_lt_two).1 (hleast.trans_lt hhigh)
  have hbound := (zpow_lt_zpow_iff_right₀ one_lt_two).1 (hlow.trans hbound)
  rw [← heq]
  exact ten_zpow_decade_le hvalue hden (by omega) (by omega)

/-- The shortest digits of a double round to it. -/
theorem rounds_shortest (hb : b.Canonical) (hfinite : b.exponent ≤ 971) :
    b.Rounds b.shortest.value := by
  obtain ⟨hden, -, hvalue, hlow, hhigh, -⟩ := interval_spec hb
  have hk := ten_zpow_decade_interval_le hb hfinite
  rw [shortest, if_neg (by simpa using hb.pos.ne'), Interval.shortest, Decimal.value_strip]
  generalize decade b.interval.value b.interval.den = k at hk
  have hfound : ((List.range 17).findSome? fun n ↦
      b.interval.onGrid? (k - Int.ofNat n)).isSome = true := by
    rw [List.findSome?_isSome_iff]
    refine ⟨16, by simp, Interval.isSome_onGrid? hden ?_ ?_⟩
    · rw [hlow, hvalue]
      linarith [half_ulp_lt hb hk]
    · rw [hhigh, hvalue]
      have hgap := mul_le_mul_of_nonneg_right b.gap_le (show (0 : ℚ) ≤ 2 ^ b.exponent by positivity)
      linarith [half_ulp_lt hb hk]
  obtain ⟨d, hd⟩ := Option.isSome_iff_exists.1 hfound
  obtain ⟨n, -, hn⟩ := List.exists_of_findSome?_eq_some hd
  rw [hd]
  exact rounds_of_contains hb (Interval.contains_of_onGrid? hden hn)

end Binary

end ExprCompiler.Numeral
