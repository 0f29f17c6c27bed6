import ExprCompiler.Numeral.Binary
import Mathlib

/-!
# The order of doubles

All comparisons of two doubles read one thing, how the doubles relate: below, equal, above, or not
at all if one is a NaN. Main statement: doubles that are the same number, or both no number, relate
alike to every double (`Numeral.Same.relate_left`).
-/

namespace ExprCompiler.Numeral

open Float.Model Float.Model.UnpackedFloat

/-- How two doubles relate; NaNs do not. -/
def relate (x y : Float) : Option Ordering := x.toModel.compare y.toModel

/-- The three comparisons of doubles are read off one relation. -/
theorem lt_iff_relate {x y : Float} : x < y ↔ relate x y = some .lt := by
  change decide ((relate x y == some .lt) = true) = true ↔ _
  simp

theorem le_iff_relate {x y : Float} : x ≤ y ↔ (relate x y).any Ordering.isLE = true := by
  change decide ((relate x y).any Ordering.isLE = true) = true ↔ _
  simp

theorem beq_iff_relate {x y : Float} : (x == y) = true ↔ relate x y = some .eq := by
  change (relate x y == some .eq) = true ↔ _
  simp

/-! ## Unpacked doubles -/

/-- Numbers are compared unless one of them is a NaN. -/
theorem compare_eq_none {a b : UnpackedFloat} :
    a.compare b = none ↔ a.isNaN = true ∨ b.isNaN = true := by
  rcases a with (_ | _) | _ | _ | ⟨_ | _, _, _, _⟩ <;>
    rcases b with (_ | _) | _ | _ | ⟨_ | _, _, _, _⟩ <;>
    simp [UnpackedFloat.compare, UnpackedFloat.isNaN]

/-- Exponents before mantissas: the comparison turns round with its operands. -/
theorem compare_then_swap (e₁ e₂ : Int) (m₁ m₂ : Nat) :
    (compare e₂ e₁).then (compare m₂ m₁) = ((compare e₁ e₂).then (compare m₁ m₂)).swap := by
  rw [Ordering.swap_then, ← Std.OrientedOrd.eq_swap, ← Std.OrientedOrd.eq_swap]

/-- Exchanged operands exchange less and greater. -/
theorem compare_swap (a b : UnpackedFloat) : b.compare a = (a.compare b).map Ordering.swap := by
  rcases a with (_ | _) | _ | _ | ⟨_ | _, m₁, e₁, _⟩ <;>
    rcases b with (_ | _) | _ | _ | ⟨_ | _, m₂, e₂, _⟩ <;> try rfl
  · simp [UnpackedFloat.compare, compare_then_swap e₁ e₂ m₁ m₂]
  · simp [UnpackedFloat.compare, compare_then_swap e₁ e₂ m₁ m₂]

/-- Equal doubles are one and the same number, or two zeros, and zeros compare alike. -/
theorem compare_congr {a b : UnpackedFloat} (h : a.beq b = true) (c : UnpackedFloat) :
    a.compare c = b.compare c := by
  obtain ⟨-, -, rfl | ⟨rfl, rfl⟩ | ⟨rfl, rfl⟩⟩ := (beq_iff_ne_notANumber_and_eq a b).1 h
  · rfl
  · rcases c with (_ | _) | _ | _ | ⟨_ | _, _, _, _⟩ <;> rfl
  · rcases c with (_ | _) | _ | _ | ⟨_ | _, _, _, _⟩ <;> rfl

/-! ## Doubles -/

/-- Doubles are related unless one of them is a NaN. -/
theorem relate_eq_none {x y : Float} :
    relate x y = none ↔ x.isNaN = true ∨ y.isNaN = true :=
  compare_eq_none

/-- Only a NaN is not related to zero. -/
theorem relate_zero_eq_none {x : Float} : relate x 0 = none ↔ x.isNaN = true := by
  rw [relate_eq_none]
  exact or_iff_left (by decide)

/-- What is related is no NaN. -/
theorem isNaN_of_relate {x y : Float} {o : Ordering} (h : relate x y = some o) :
    x.isNaN = false := by
  rw [Bool.eq_false_iff]
  intro hx
  rw [relate_eq_none.2 (.inl hx)] at h
  cases h

/-- Exchanged operands exchange less and greater. -/
theorem relate_swap (x y : Float) : relate y x = (relate x y).map Ordering.swap :=
  compare_swap x.toModel.unpack y.toModel.unpack

/-- The greater of two doubles, by what they are related by. -/
theorem gt_iff_relate {x y : Float} : y < x ↔ relate x y = some .gt := by
  rw [lt_iff_relate, relate_swap x y]
  rcases relate x y with _ | _ | _ | _ <;> simp

theorem decide_lt (x y : Float) : decide (x < y) = (relate x y).any (· == .lt) := by
  rw [Bool.eq_iff_iff, decide_eq_true_iff, lt_iff_relate]
  cases relate x y <;> simp

theorem decide_gt (x y : Float) : decide (y < x) = (relate x y).any (· == .gt) := by
  rw [Bool.eq_iff_iff, decide_eq_true_iff, gt_iff_relate]
  cases relate x y <;> simp

/-- At most is everything but greater, where anything holds at all. -/
theorem decide_le (x y : Float) : decide (x ≤ y) = (relate x y).any (· != .gt) := by
  rw [Bool.eq_iff_iff, decide_eq_true_iff, le_iff_relate]
  rcases relate x y with _ | _ | _ | _ <;> rfl

theorem decide_ge (x y : Float) : decide (y ≤ x) = (relate x y).any (· != .lt) := by
  rw [decide_le, relate_swap x y]
  rcases relate x y with _ | _ | _ | _ <;> rfl

/-- Two doubles that are the same number, or both no number. -/
def Same (x y : Float) : Prop := (x.isNaN = true ∧ y.isNaN = true) ∨ (x == y) = true

instance (x y : Float) : Decidable (Same x y) :=
  inferInstanceAs (Decidable ((x.isNaN = true ∧ y.isNaN = true) ∨ (x == y) = true))

namespace Same

variable {x x' y y' : Float}

/-- To be the same double does not depend on the order. -/
theorem symm (h : Same x y) : Same y x := by
  rcases h with ⟨hx, hy⟩ | h
  · exact .inl ⟨hy, hx⟩
  · exact .inr (BEq.symm h)

/-- Doubles that are the same relate alike to every double. -/
theorem relate_left (h : Same x x') (y : Float) : relate x y = relate x' y := by
  rcases h with ⟨hx, hx'⟩ | h
  · rw [relate_eq_none.2 (.inl hx), relate_eq_none.2 (.inl hx')]
  · exact compare_congr h y.toModel.unpack

/-- The relation of two doubles does not tell same doubles apart. -/
theorem relate_eq (hx : Same x x') (hy : Same y y') : relate x y = relate x' y' := by
  rw [hx.relate_left, relate_swap, hy.relate_left, ← relate_swap]

theorem isNaN_eq (h : Same x x') : x.isNaN = x'.isNaN := by
  rw [Bool.eq_iff_iff, ← relate_zero_eq_none, ← relate_zero_eq_none, h.relate_left]

/-- Neither does their equality. -/
theorem beq_eq (hx : Same x x') (hy : Same y y') : (x == y) = (x' == y') := by
  rw [Bool.eq_iff_iff, beq_iff_relate, beq_iff_relate, hx.relate_eq hy]

end Same

/-- Every double is the same as itself, NaN included. -/
theorem same_refl (x : Float) : Same x x := by
  by_cases h : x = .nan
  · exact .inl (by simp [h])
  · exact .inr (Float.beq_self_iff.2 h)

/-- The first comparison that holds says how two doubles relate. -/
theorem ite_lt_of_relate {x y : Float} {o : Ordering} (h : relate x y = some o) :
    (if x < y then Ordering.lt else if y < x then .gt else .eq) = o := by
  have hswap := relate_swap x y
  rw [h] at hswap
  simp only [lt_iff_relate, h, hswap]
  cases o <;> rfl

end ExprCompiler.Numeral
