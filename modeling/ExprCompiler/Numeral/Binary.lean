import ExprCompiler.Numeral.Word

/-!
# Doubles as exact numbers

A finite double is `± m · 2^e` with natural `m`. This file reads that form off the bits, and goes
the other way by rounding an exact quotient to the nearest double, ties to even.
-/

namespace ExprCompiler.Numeral

/-- The bit that a mantissa starts with unless the number is tiny, `2^52`. -/
def leadingBit : Nat := 0x10000000000000

/-- Whether the sign bit is set; told apart for zeros too. -/
def signBit (x : Float) : Bool := x.toBits.toNat / signedBound == 1

/-- A finite double as a sign, a magnitude and a power of two. -/
structure Binary where
  negative : Bool
  mantissa : Nat
  exponent : Int
deriving DecidableEq, Repr

/-- The quotient `n / d` rounded to the nearest natural number, a tie to the even one. -/
def divHalfEven (n d : Nat) : Nat :=
  let q := n / d
  let r := n % d
  if 2 * r < d then q
  else if d < 2 * r then q + 1
  else q + q % 2

namespace Binary

/-- The exact content of a double; `none` for an infinity or a NaN. -/
def ofFloat? (x : Float) : Option Binary :=
  let bits := x.toBits.toNat
  let negative := signBit x
  let field : Nat := bits / leadingBit % 2048
  let fraction : Nat := bits % leadingBit
  if field == 2047 then none
  else if field == 0 then some ⟨negative, fraction, -1074⟩
  else some ⟨negative, leadingBit + fraction, Int.ofNat field - 1075⟩

/-- The magnitude as a fraction of naturals. -/
def fraction (b : Binary) : Nat × Nat :=
  if 0 ≤ b.exponent then (b.mantissa * Nat.pow 2 b.exponent.toNat, 1)
  else (b.mantissa, Nat.pow 2 (-b.exponent).toNat)

def toRat (b : Binary) : Rat :=
  let (n, d) := b.fraction
  mkRat (if b.negative then -(n : Int) else n) d

end Binary

/-- The double with magnitude `m · 2^e`, where `m ≤ 2^53`, and `e = -1074` if `m < 2^52`. Adding
`m` to the shifted exponent carries into the next binade when `m = 2^53`. -/
def assemble (m : Nat) (e : Int) : Float :=
  let bits := (e + 1074).toNat * leadingBit + m
  if 2047 * leadingBit ≤ bits then Float.ofBits (0x7FF0000000000000 : UInt64)
  else Float.ofBits bits.toUInt64

/-- The double nearest to `n / d`, a tie going to the even mantissa; infinity past the largest. -/
def nearestQuotient (n d : Nat) : Float :=
  if n == 0 || d == 0 then 0.0
  else
    let scaled (e : Int) : Nat × Nat :=
      if 0 ≤ e then (n, d * Nat.pow 2 e.toNat) else (n * Nat.pow 2 (-e).toNat, d)
    let low := max ((Nat.log2 n : Int) - (Nat.log2 d : Int) - 53) (-1074)
    let (n₀, d₀) := scaled low
    let e := if 2 * leadingBit ≤ n₀ / d₀ then low + 1 else low
    let (n₁, d₁) := scaled e
    assemble (divHalfEven n₁ d₁) e

/-- The double nearest to a rational number. -/
def nearest (q : Rat) : Float :=
  let x := nearestQuotient q.num.natAbs q.den
  if q.num < 0 then -x else x

/-- The exact value of a finite double. -/
def rational? (x : Float) : Option Rat := (Binary.ofFloat? x).map Binary.toRat

/-- The magnitude of `x` with the sign of `s`. -/
def copySign (x s : Float) : Float :=
  if signBit s then -x.abs else x.abs

end ExprCompiler.Numeral
