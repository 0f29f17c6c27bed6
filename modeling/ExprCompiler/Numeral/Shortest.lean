import ExprCompiler.Numeral.Binary

/-!
# Decimal digits of a double

`shortest` gives the fewest digits that read back as the same double and, among those, the digits
nearest to it. `rounded` gives a fixed number of digits of the exact value. Both work in exact
natural arithmetic.
-/

namespace ExprCompiler.Numeral

/-- The decimal number `digits · 10^exponent`. -/
structure Decimal where
  digits : Nat
  exponent : Int
deriving DecidableEq, Repr

namespace Decimal

/-- Drops trailing zeros of the digits; `fuel` bounds how many. -/
def strip : Nat → Decimal → Decimal
  | 0, d => d
  | fuel + 1, d =>
    if d.digits != 0 && d.digits % 10 == 0 then strip fuel ⟨d.digits / 10, d.exponent + 1⟩ else d

/-- The digits as characters, first digit first. -/
def chars (d : Decimal) : List Char := Nat.toDigits 10 d.digits

/-- The power of ten of the first digit. -/
def leading (d : Decimal) : Int := d.exponent + d.chars.length - 1

end Decimal

/-- The `k` with `10^k ≤ n / d < 10^(k+1)`, for positive `n` and `d`. The first guess from the
binary logarithms is never too large and at most two too small. -/
def decade (n d : Nat) : Int :=
  let reaches (k : Int) : Bool :=
    if 0 ≤ k then Nat.pow 10 k.toNat * d ≤ n else d ≤ n * Nat.pow 10 (-k).toNat
  let guess := Int.fdiv (((Nat.log2 n : Int) - (Nat.log2 d : Int) - 1) * 30103) 100000 - 1
  if reaches (guess + 3) then guess + 3
  else if reaches (guess + 2) then guess + 2
  else if reaches (guess + 1) then guess + 1
  else guess

/-- The reals that round to a given double, as numerators over one denominator. -/
structure Interval where
  low : Nat
  value : Nat
  high : Nat
  den : Nat
  /-- Whether the ends themselves round to the double. -/
  closed : Bool
deriving DecidableEq, Repr

/-- The rounding interval of a positive finite double. Below a power of two the neighbour is only
half as far away. -/
def Binary.interval (b : Binary) : Interval :=
  let narrow := b.mantissa == leadingBit && b.exponent != -1074
  let low := 4 * b.mantissa - (if narrow then 1 else 2)
  let value := 4 * b.mantissa
  let high := 4 * b.mantissa + 2
  let e := b.exponent - 2
  let closed := b.mantissa % 2 == 0
  if 0 ≤ e then
    let s := Nat.pow 2 e.toNat
    ⟨low * s, value * s, high * s, 1, closed⟩
  else ⟨low, value, high, Nat.pow 2 (-e).toNat, closed⟩

/-- The multiple of `10^p` inside the interval that is nearest to the value, if there is one. -/
def Interval.onGrid? (i : Interval) (p : Int) : Option Decimal :=
  let scale := if 0 ≤ p then 1 else Nat.pow 10 (-p).toNat
  let unit := if 0 ≤ p then i.den * Nat.pow 10 p.toNat else i.den
  let value := i.value * scale
  let inside (c : Nat) : Bool :=
    let x := c * unit
    if i.closed then i.low * scale ≤ x && x ≤ i.high * scale
    else i.low * scale < x && x < i.high * scale
  let near := divHalfEven value unit
  let down := value / unit
  let far := if near == down then down + 1 else down
  if inside near then some ⟨near, p⟩
  else if inside far then some ⟨far, p⟩
  else none

/-- The first grid, from one digit to seventeen, that has a point in the interval. -/
def Interval.shortest (i : Interval) (k : Int) : Decimal :=
  let found := (List.range 17).findSome? fun n ↦ i.onGrid? (k - Int.ofNat n)
  (found.getD ⟨divHalfEven i.value i.den, 0⟩).strip 400

/-- The fewest digits that read back as the double; the sign is left out. -/
def Binary.shortest (b : Binary) : Decimal :=
  if b.mantissa == 0 then ⟨0, 0⟩
  else
    let i := b.interval
    i.shortest (decade i.value i.den)

/-- The exact value to `n` significant digits, a tie to the even digit; trailing zeros are kept. -/
def Binary.rounded (b : Binary) (n : Nat) : Decimal :=
  let (num, den) := b.fraction
  if num == 0 then ⟨0, 0⟩
  else
    let k := decade num den
    let p := k - n + 1
    let digits :=
      if 0 ≤ p then divHalfEven num (den * Nat.pow 10 p.toNat)
      else divHalfEven (num * Nat.pow 10 (-p).toNat) den
    if Nat.pow 10 n ≤ digits then ⟨digits / 10, p + 1⟩ else ⟨digits, p⟩

end ExprCompiler.Numeral
