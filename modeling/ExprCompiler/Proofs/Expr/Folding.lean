import ExprCompiler.Expr.Build
import Mathlib.Algebra.BigOperators.Group.List.Basic
import Mathlib.Algebra.Field.Rat
import Mathlib.Algebra.Order.Field.Power
import Mathlib.Algebra.Order.Ring.Rat

/-!
# Folding powers of exact numbers

A power of an exact number folds if the low word of its integer exponent is at most twenty in
magnitude. Main statement: the constructor leaves the power as it is or gives its value, unless the
exponent is no word but has a small low word, and the base is none of `0`, `1` and `-1`; then it
gives the power with the low word for the exponent, which is another number
(`Expr.powOf_num_exact_iff`).
-/

namespace ExprCompiler

/-! ## Low words -/

/-- Signed words by their bounds. -/
theorem Numeral.isWord_iff {n : ℤ} :
    isWord n = true ↔ -(signedBound : ℤ) ≤ n ∧ n < signedBound := by
  simp [isWord]

/-- A signed word is its low bits. -/
theorem Numeral.lowBits_of_isWord {n : ℤ} (h : isWord n = true) : lowBits n = n := by
  obtain ⟨hlow, hhigh⟩ := isWord_iff.1 h
  simp only [signedBound] at hlow hhigh
  apply Int.bmod_eq_of_le
  · simp only [wordCount]
    omega
  · simp only [wordCount]
    omega

namespace Expr

/-- The low bits of a magnitude, with the sign put back, are those of the integer. -/
theorem lowWord_eq_lowBits (n : ℤ) : lowWord n = Numeral.lowBits n := by
  simp only [lowWord, Numeral.lowBits]
  by_cases hn : n < 0
  · have habs : (n.natAbs : ℤ) = -n := by omega
    rw [if_pos hn, habs]
    simp
  · have habs : (n.natAbs : ℤ) = n := by omega
    rw [if_neg hn, habs]

/-- The number of words is even, so an integer is as odd as its low word. -/
theorem even_lowWord_sub (n : ℤ) : Even (lowWord n - n) := by
  have hwords : (2 : ℤ) ∣ Numeral.wordCount := by decide
  rw [lowWord_eq_lowBits, even_iff_two_dvd]
  exact hwords.trans Int.dvd_bmod_sub_self

theorem lowWord_of_isWord {n : ℤ} (h : Numeral.isWord n = true) : lowWord n = n := by
  rw [lowWord_eq_lowBits, Numeral.lowBits_of_isWord h]

theorem isWord_of_natAbs_le {n : ℤ} (h : n.natAbs ≤ 20) : Numeral.isWord n = true := by
  simp only [Numeral.isWord_iff, Numeral.signedBound]
  omega

/-! ## Powers -/

/-- Powers of rationals are the usual ones. -/
theorem ratPower_eq_zpow (q : ℚ) (e : ℤ) : ratPower q e = q ^ e := by
  have hproduct : (List.replicate e.natAbs q).foldl (· * ·) 1 = q ^ e.natAbs := by
    rw [← List.prod_eq_foldl, List.prod_replicate]
  simp only [ratPower, hproduct]
  by_cases he : e < 0
  · have hneg : e = -(e.natAbs : ℤ) := by omega
    rw [if_pos he, one_div]
    conv_rhs => rw [hneg, zpow_neg, zpow_natCast]
  · have hpos : e = (e.natAbs : ℤ) := by omega
    rw [if_neg he]
    conv_rhs => rw [hpos, zpow_natCast]

/-- What becomes of the power of two exact numbers whose exponent is whole. -/
theorem powOf_num_num (b : ℚ) (n : ℤ) :
    powOf (.num b) (.num n) =
      if n = 0 then .num 1
      else if n = 1 then .num b
      else if b = 0 then (if n < 0 then .pow (.num b) (.num n) else .num 0)
      else if b = 1 then .num 1
      else if (lowWord n).natAbs ≤ 20 then .num (b ^ lowWord n)
      else .pow (.num b) (.num n) := by
  have hsmall : (-20 ≤ lowWord n ∧ lowWord n ≤ 20) ↔ (lowWord n).natAbs ≤ 20 := by omega
  simp only [powOf, Bool.and_eq_true, decide_eq_true_eq, beq_iff_eq]
  simp only [Rat.intCast_eq_zero_iff, Rat.intCast_eq_one_iff, Int.cast_lt_zero, Rat.num_intCast,
    Rat.den_intCast, true_and, hsmall, ratPower_eq_zpow]

/-- A small low word folds, and takes the place of the exponent. -/
theorem powOf_num_of_small {b : ℚ} {n : ℤ} (hb : b ≠ 0) (h : (lowWord n).natAbs ≤ 20) :
    powOf (.num b) (.num n) = .num (b ^ lowWord n) := by
  rw [powOf_num_num, if_neg hb, if_pos h]
  split
  · rename_i hn
    rw [hn, lowWord_of_isWord rfl, zpow_zero]
  · split
    · rename_i hn
      rw [hn, lowWord_of_isWord rfl, zpow_one]
    · split
      · rename_i hb
        rw [hb, one_zpow]
      · rfl

/-- Nothing else folds but powers of zero and one, and powers to the exponents zero and one. Zero to
a negative exponent is left as it is. -/
theorem powOf_num_of_large {b : ℚ} {n : ℤ} (h : b = 0 ∨ 20 < (lowWord n).natAbs) :
    powOf (.num b) (.num n) = .pow (.num b) (.num n) ∨
      powOf (.num b) (.num n) = .num (b ^ n) := by
  rw [powOf_num_num]
  by_cases hzero : n = 0
  · right
    rw [if_pos hzero, hzero, zpow_zero]
  by_cases hone : n = 1
  · right
    rw [if_neg hzero, if_pos hone, hone, zpow_one]
  rw [if_neg hzero, if_neg hone]
  by_cases hb : b = 0
  · rw [if_pos hb, hb, zero_zpow n hzero]
    split
    · exact .inl rfl
    · exact .inr rfl
  · have hfold : ¬(lowWord n).natAbs ≤ 20 := Nat.not_le.2 (h.resolve_left hb)
    rw [if_neg hb, if_neg hfold]
    split
    · rename_i hb
      right
      rw [hb, one_zpow]
    · exact .inl rfl

/-- A low word gives the same power as its integer if it is the integer itself, and otherwise only
for a base of magnitude zero or one. -/
theorem zpow_lowWord_eq_iff {b : ℚ} {n : ℤ} (hb : b ≠ 0) :
    b ^ lowWord n = b ^ n ↔ |b| = 1 ∨ lowWord n = n := by
  constructor
  · intro h
    by_cases hone : |b| = 1
    · exact .inl hone
    · right
      have habs : |b| ^ lowWord n = |b| ^ n := calc
        |b| ^ lowWord n = |b ^ lowWord n| := (abs_zpow b (lowWord n)).symm
        _ = |b ^ n| := by rw [h]
        _ = |b| ^ n := abs_zpow b n
      exact zpow_right_injective₀ (abs_pos.2 hb) hone habs
  · rintro (hone | hself)
    · rcases abs_eq_abs.1 (hone.trans abs_one.symm) with rfl | rfl
      · rw [one_zpow, one_zpow]
      · -- The sign of a power of minus one depends on the parity of the exponent alone.
        have hsub : (-1 : ℚ) ^ (lowWord n - n) = 1 := (even_lowWord_sub n).neg_one_zpow
        rwa [zpow_sub₀ (by norm_num), div_eq_one_iff_eq (zpow_ne_zero n (by norm_num))] at hsub
    · rw [hself]

/-- The bases and exponents at which folding is exact: a base of magnitude zero or one, an exponent
that is a word, or one whose low word is too large to fold. -/
def FoldsExactly (b : ℚ) (n : ℤ) : Prop :=
  b = 0 ∨ |b| = 1 ∨ Numeral.isWord n = true ∨ 20 < (lowWord n).natAbs

/-- The power of an exact number with a whole exponent stays as it is or folds to its value, if and
only if the base has magnitude zero or one, or the exponent is a word or has a large low word.
Otherwise the low word takes the place of the exponent, and that power is another number. -/
theorem powOf_num_exact_iff (b : ℚ) (n : ℤ) :
    ((powOf (.num b) (.num n) = .pow (.num b) (.num n) ∨
        powOf (.num b) (.num n) = .num (b ^ n)) ↔ FoldsExactly b n) ∧
      (¬FoldsExactly b n →
        powOf (.num b) (.num n) = .num (b ^ lowWord n) ∧ b ^ lowWord n ≠ b ^ n) := by
  by_cases hlarge : b = 0 ∨ 20 < (lowWord n).natAbs
  · have hexact : FoldsExactly b n := by
      unfold FoldsExactly
      tauto
    exact ⟨iff_of_true (powOf_num_of_large hlarge) hexact, fun h ↦ absurd hexact h⟩
  · obtain ⟨hb, hsmall⟩ := not_or.1 hlarge
    have hfold := powOf_num_of_small hb (Nat.not_lt.1 hsmall)
    have hword : Numeral.isWord n = true ↔ lowWord n = n := by
      constructor
      · exact lowWord_of_isWord
      · intro hself
        rw [hself, Nat.not_lt] at hsmall
        exact isWord_of_natAbs_le hsmall
    -- What folded is exact if the low word gives the same power.
    have hexact : FoldsExactly b n ↔ b ^ lowWord n = b ^ n := by
      simp only [FoldsExactly, zpow_lowWord_eq_iff hb, hb, hsmall, hword, false_or, or_false]
    rw [hexact, hfold]
    simp

/-- Two to the exponent `2^64 + 2` folds to four, the power with the exponent two. -/
theorem powOf_num_beyond_words :
    ∃ n : ℤ, n = 18446744073709551618 ∧ powOf (.num 2) (.num n) = .num 4 ∧
      powOf (.num 2) (.num n) ≠ .pow (.num 2) (.num n) ∧
      powOf (.num 2) (.num n) ≠ .num (2 ^ n) := by
  obtain ⟨n, hn⟩ : ∃ n : ℤ, n = 18446744073709551618 := ⟨_, rfl⟩
  have hlow : lowWord n = 2 := by rw [hn]; decide
  have hsmall : (lowWord n).natAbs ≤ 20 := by rw [hlow]; decide
  have htwo : (2 : ℚ) ≠ 0 := by decide
  have hfold := powOf_num_of_small htwo hsmall
  have hother : (2 : ℚ) ^ lowWord n ≠ 2 ^ n := by
    rw [Ne, zpow_lowWord_eq_iff htwo, hlow, hn]
    decide
  refine ⟨n, hn, ?_, ?_, ?_⟩
  · rw [hfold, hlow]
    rfl
  · rw [hfold]
    exact Expr.noConfusion
  · rw [hfold]
    intro h
    exact hother (Expr.num.inj h)

end Expr

end ExprCompiler
