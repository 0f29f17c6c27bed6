import ExprCompiler.Numeral.Binary

/-!
# Real functions

The functions on doubles that the base library lacks, or gives other values at the edges: exact
remainders, lengths, powers and the hyperbolic functions near overflow.
-/

namespace ExprCompiler.Elementary

open Numeral (signBit copySign Binary)

def infinity : Float := 1.0 / 0.0
def nan : Float := 0.0 / 0.0
def pi : Float := 3.141592653589793

/-- Whether `x` is `+∞` or `-∞` is asked often enough to have names. -/
def isPosInf (x : Float) : Bool := x.isInf && 0 < x
def isNegInf (x : Float) : Bool := x.isInf && x < 0

/-- Rounds toward zero. -/
def truncate (x : Float) : Float := copySign x.abs.floor x

/-- The signed part of `x` after the point. -/
def fractional (x : Float) : Float :=
  if x.isInf then nan else copySign (x - truncate x) x

/-- The exact remainder of `x` by `y`, with the sign of `x`. -/
def remainder (x y : Float) : Float :=
  match Binary.ofFloat? x, Binary.ofFloat? y with
  | some a, some b =>
    if b.mantissa == 0 then nan
    else
      let e := min a.exponent b.exponent
      let n := a.mantissa * Nat.pow 2 (a.exponent - e).toNat
      let d := b.mantissa * Nat.pow 2 (b.exponent - e).toNat
      let r := n % d
      copySign (Numeral.nearestQuotient (r * Nat.pow 2 e.toNat) (Nat.pow 2 (-e).toNat)) x
  | some _, none => if y.isNaN then nan else x
  | none, _ => nan

/-- The length of `(p, q)` without overflow on the way; an infinite side wins over a NaN. -/
def hypotenuse (p q : Float) : Float :=
  let p := p.abs
  let q := q.abs
  if p.isInf || q.isInf then infinity
  else if p.isNaN || q.isNaN then nan
  else
    let (p, q) := if p < q then (q, p) else (p, q)
    if p == 0 then 0
    else
      let r := q / p
      p * Float.sqrt (1 + r * r)

/-- Half the exponential stands for the hyperbolic functions from here on. -/
private def farOut : Float := 21

def sinh (x : Float) : Float :=
  if farOut < x.abs then copySign (Float.exp x.abs * 0.5) x else Float.sinh x

def cosh (x : Float) : Float :=
  if farOut < x.abs then Float.exp x.abs * 0.5 else Float.cosh x

/-! ## Powers -/

/-- Whether a double is an odd integer; from `2^53` on all are even. -/
def isOddInteger (x : Float) : Bool :=
  match Binary.ofFloat? x with
  | none => false
  | some b =>
    if 0 < b.exponent then false
    else
      let unit := Nat.pow 2 (-b.exponent).toNat
      b.mantissa % unit == 0 && b.mantissa / unit % 2 == 1

/-- A double in `[1/2, 1)` with a power of two beside it. -/
structure Scaled where
  fraction : Float
  exponent : Int

/-- Squares a scaled number and brings it back into `[1/2, 1)`. -/
def Scaled.square (s : Scaled) : Scaled :=
  let f := s.fraction * s.fraction
  if f < 0.5 then ⟨f + f, 2 * s.exponent - 1⟩ else ⟨f, 2 * s.exponent⟩

/-- Multiplies `acc` by `s` to the power of the bits of `n`, lowest first. An exponent past `2^12`
settles that the result overflows or vanishes, and ends the product. -/
def Scaled.powerInto (acc s : Scaled) (n : Nat) : Scaled :=
  if n == 0 then acc
  else if s.exponent < -4096 || 4096 < s.exponent then
    ⟨acc.fraction, acc.exponent + s.exponent⟩
  else
    let acc := if n % 2 == 1 then ⟨acc.fraction * s.fraction, acc.exponent + s.exponent⟩ else acc
    powerInto acc s.square (n / 2)
termination_by n
decreasing_by
  rename_i h _
  have : n ≠ 0 := by simpa using h
  omega

/-- The magnitude of a double that is a whole number. -/
private def wholePart (x : Float) : Nat :=
  match Binary.ofFloat? x with
  | none => 0
  | some b => let (n, d) := b.fraction; n / d

/-- `x^y` for finite operands, `x` not zero. The whole part of the exponent goes by repeated
squaring, the rest, at most one half, through the logarithm. -/
private def finitePower (x y : Float) : Float :=
  let whole := y.abs.floor
  let rest := y.abs - whole
  if rest != 0 && x < 0 then nan
  else if 9.223372036854775808e18 ≤ whole then
    if x == -1 then 1
    else if (x.abs < 1) == (0 < y) then 0
    else infinity
  else
    let (whole, rest) := if 0.5 < rest then (whole + 1, rest - 1) else (whole, rest)
    let start := if rest == 0 then 1 else Float.exp (rest * Float.log x)
    let (f, e) := x.frExp
    let r := Scaled.powerInto ⟨start, 0⟩ ⟨f, e⟩ (wholePart whole)
    if y < 0 then (1 / r.fraction).scaleB (-r.exponent) else r.fraction.scaleB r.exponent

private def powerOfZero (x y : Float) : Float :=
  let odd := signBit x && isOddInteger y
  if y < 0 then (if odd then -infinity else infinity) else (if odd then x else 0)

/-- `x^y`. Every base to the power zero, and one to every power, is one, NaN included. -/
def power (x y : Float) : Float :=
  if y == 0 || x == 1 then 1
  else if y == 1 then x
  else if x.isNaN || y.isNaN then nan
  else if x == 0 then powerOfZero x y
  else if y.isInf then
    if x == -1 then 1
    else if (x.abs < 1) == isPosInf y then 0
    else infinity
  else if x.isInf then
    if isNegInf x then powerOfZero (-0.0) (-y)
    else if y < 0 then 0
    else infinity
  else if y == 0.5 then Float.sqrt x
  else if y == -0.5 then 1 / Float.sqrt x
  else finitePower x y

end ExprCompiler.Elementary
