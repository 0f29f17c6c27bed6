import ExprCompiler.Elementary.Basic

/-!
# Evenly spaced values

A span has its ends at given bounds. Bounds that are not finite leave no even spacing: then the
values next to a bound repeat it, and two infinite bounds share the values between them.
-/

namespace ExprCompiler.Sampling

open Elementary (nan)

/-- The value at position `i` of `n`, where `2 ≤ n`. -/
def spanAt (lo hi : Float) (n i : Nat) : Float :=
  let last := i + 1 == n
  if lo.isNaN then (if last then hi else nan)
  else if hi.isNaN then (if i == 0 then lo else nan)
  else if lo.isInf && hi.isInf then
    if 2 * i + 1 < n then lo
    else if n < 2 * i + 1 then hi
    else if lo == hi then lo else 0
  else if lo.isInf then (if last then hi else lo)
  else if hi.isInf then (if i == 0 then lo else hi)
  else lo + (hi - lo) / Float.ofNat (n - 1) * Float.ofNat i

/-- `n` values from `lo` to `hi`; a single value is `lo`. -/
def linspace (lo hi : Float) (n : Nat) : List Float :=
  if n == 1 then [lo] else (List.range n).map (spanAt lo hi n)

@[simp] theorem length_linspace (lo hi : Float) (n : Nat) : (linspace lo hi n).length = n := by
  unfold linspace
  split <;> simp_all

end ExprCompiler.Sampling
