import ExprCompiler.ComplexFloat.Basic

/-!
# Complex functions

The elementary functions on pairs of doubles. Each begins with its values at infinities, NaNs and
signed zeros, where the formula below them would lose information.
-/

namespace ExprCompiler.ComplexFloat

open Elementary (infinity nan pi)
open Numeral (copySign)

private def undefined (x : Float) : Bool := x.isInf || x.isNaN

/-- `sinh` and `cosh` together, sharing the exponential. -/
private def sinhCosh (x : Float) : Float × Float :=
  if x.abs ≤ 0.5 then (Elementary.sinh x, Elementary.cosh x)
  else
    let e := Float.exp x
    let r := 0.5 / e
    let h := e * 0.5
    (h - r, h + r)

/-! ## Exponentials, logarithms, roots, powers -/

def exp (z : ComplexFloat) : ComplexFloat :=
  let general : ComplexFloat :=
    let r := Float.exp z.re
    ⟨r * Float.cos z.im, r * Float.sin z.im⟩
  if z.re.isInf then
    if 0 < z.re && z.im == 0 then z
    else if undefined z.im then
      if z.re < 0 then ⟨0, copySign 0 z.im⟩ else ⟨infinity, nan⟩
    else general
  else if z.re.isNaN && z.im == 0 then ⟨nan, z.im⟩
  else general

def log (z : ComplexFloat) : ComplexFloat := ⟨Float.log z.abs, z.phase⟩

/-- The root of a number off the axes, scaled so that nothing overflows on the way. -/
private def sqrtScaled (z : ComplexFloat) : ComplexFloat :=
  let large := 4 < z.re.abs || 4 < z.im.abs
  let shrink := if large then 0.25 else 1.8014398509481984e16
  let grow := if large then 2.0 else 7.450580596923828125e-9
  let a := z.re * shrink
  let b := z.im * shrink
  let r := Elementary.hypotenuse a b
  let (t, r) :=
    if 0 < a then
      let t := Float.sqrt (0.5 * r + 0.5 * a)
      (t * grow, grow * ((0.5 * b) / t).abs)
    else
      let r := Float.sqrt (0.5 * r - 0.5 * a)
      (grow * ((0.5 * b) / r).abs, r * grow)
  if b < 0 then ⟨t, -r⟩ else ⟨t, r⟩

def sqrt (z : ComplexFloat) : ComplexFloat :=
  if z.im == 0 then
    if z.re == 0 then ⟨0, z.im⟩
    else if z.re < 0 then ⟨0, copySign (Float.sqrt (-z.re)) z.im⟩
    else ⟨Float.sqrt z.re, z.im⟩
  else if z.im.isInf then ⟨infinity, z.im⟩
  else if z.re == 0 then
    let r := Float.sqrt (0.5 * z.im.abs)
    if z.im < 0 then ⟨r, -r⟩ else ⟨r, r⟩
  else sqrtScaled z

/-- Powers of zero go by the exponent's real part; other powers go through polar form. -/
def pow (z w : ComplexFloat) : ComplexFloat :=
  if z.isZero then
    if w.isZero then ⟨1, 0⟩
    else if w.re < 0 then (if w.im == 0 then ⟨infinity, 0⟩ else inf)
    else if 0 < w.re then ⟨0, 0⟩
    else if w.re.isNaN then ⟨nan, nan⟩
    else ⟨1, 0⟩
  else
    let m := z.abs
    if m == 0 then ⟨0, 0⟩
    else
      let r := Elementary.power m w.re
      let arg := z.phase
      let theta := w.re * arg
      let (r, theta) :=
        if w.im == 0 then (r, theta)
        else (r * Float.exp (-w.im * arg), theta + w.im * Float.log m)
      ⟨r * Float.cos theta, r * Float.sin theta⟩

/-! ## Circular and hyperbolic functions -/

def sin (z : ComplexFloat) : ComplexFloat :=
  let general : ComplexFloat :=
    let (sh, ch) := sinhCosh z.im
    ⟨Float.sin z.re * ch, Float.cos z.re * sh⟩
  if z.im == 0 && undefined z.re then ⟨nan, z.im⟩
  else if z.im.isInf then
    if z.re == 0 then z
    else if undefined z.re then ⟨nan, z.im⟩
    else general
  else if z.re == 0 && z.im.isNaN then z
  else general

def cos (z : ComplexFloat) : ComplexFloat :=
  let general : ComplexFloat :=
    let (sh, ch) := sinhCosh z.im
    ⟨Float.cos z.re * ch, -Float.sin z.re * sh⟩
  if z.im == 0 && undefined z.re then ⟨nan, -z.im * copySign 0 z.re⟩
  else if z.im.isInf then
    if z.re == 0 then ⟨infinity, -z.re * copySign 0 z.im⟩
    else if undefined z.re then ⟨infinity, nan⟩
    else general
  else if z.re == 0 && z.im.isNaN then ⟨nan, 0⟩
  else general

def sinh (z : ComplexFloat) : ComplexFloat :=
  let general : ComplexFloat :=
    let (sh, ch) := sinhCosh z.re
    ⟨Float.cos z.im * sh, Float.sin z.im * ch⟩
  if z.re == 0 && undefined z.im then ⟨z.re, nan⟩
  else if z.re.isInf then
    if z.im == 0 then z
    else if undefined z.im then ⟨z.re, nan⟩
    else general
  else if z.im == 0 && z.re.isNaN then ⟨nan, z.im⟩
  else general

def cosh (z : ComplexFloat) : ComplexFloat :=
  let general : ComplexFloat :=
    let (sh, ch) := sinhCosh z.re
    ⟨Float.cos z.im * ch, Float.sin z.im * sh⟩
  if z.re == 0 && undefined z.im then ⟨nan, z.re * copySign 0 z.im⟩
  else if z.re.isInf then
    if z.im == 0 then ⟨infinity, z.im * copySign 0 z.re⟩
    else if undefined z.im then ⟨infinity, nan⟩
    else general
  else if z.im == 0 && z.re.isNaN then ⟨nan, z.im⟩
  else general

/-- Subtracts the nearest multiple of `π`, in three parts so that little is lost. -/
private def reducePi (x : Float) : Float :=
  let t := Elementary.truncate (x / pi + 0.5)
  ((x - t * 3.14159265160560607910) - t * 1.98418714791870343106e-9)
    - t * 1.14423774522196636802e-17

/-- Terms of the series below, two at a time, until they no longer count. -/
private def seriesTerms (x y : Float) : Nat → Float → Float → Float → Float → Float → Float
  | 0, _, _, _, _, d => d
  | fuel + 1, n, f, x2, y2, d =>
    let f := f * (n + 1) * (n + 2)
    let x2 := x2 * x
    let y2 := y2 * y
    let d := d + (y2 + x2) / f
    let f := f * (n + 3) * (n + 4)
    let x2 := x2 * x
    let y2 := y2 * y
    let t := (y2 - x2) / f
    let d := d + t
    if 1.1102230246251565e-16 < (t / d).abs then seriesTerms x y fuel (n + 4) f x2 y2 d else d

/-- `cosh 2y - cos 2x` by its series, for use where the difference would cancel. -/
private def differenceSeries (z : ComplexFloat) : Float :=
  let x := reducePi (2 * z.re).abs
  let y := (2 * z.im).abs
  seriesTerms (x * x) (y * y) 200 0 1 1 1 0

def tan (z : ComplexFloat) : ComplexFloat :=
  if z.im.isInf then
    if undefined z.re then ⟨copySign 0 z.re, copySign 1 z.im⟩
    else ⟨copySign 0 (Float.sin (2 * z.re)), copySign 1 z.im⟩
  else if z.re == 0 && z.im.isNaN then z
  else
    let d := Float.cos (2 * z.re) + Elementary.cosh (2 * z.im)
    let d := if d.abs < 0.25 then differenceSeries z else d
    if d == 0 then inf
    else ⟨Float.sin (2 * z.re) / d, Elementary.sinh (2 * z.im) / d⟩

def tanh (z : ComplexFloat) : ComplexFloat :=
  if z.re.isInf then
    if undefined z.im then ⟨copySign 1 z.re, copySign 0 z.im⟩
    else ⟨copySign 1 z.re, copySign 0 (Float.sin (2 * z.im))⟩
  else if z.im == 0 && z.re.isNaN then z
  else
    let d := Elementary.cosh (2 * z.re) + Float.cos (2 * z.im)
    if d == 0 then inf
    else ⟨Elementary.sinh (2 * z.re) / d, Float.sin (2 * z.im) / d⟩

def cot (z : ComplexFloat) : ComplexFloat :=
  let d := Elementary.cosh (2 * z.im) - Float.cos (2 * z.re)
  let d := if d.abs < 0.25 then differenceSeries z else d
  if d == 0 then inf
  else ⟨Float.sin (2 * z.re) / d, -Elementary.sinh (2 * z.im) / d⟩

/-! ## Inverse functions -/

def asin (z : ComplexFloat) : ComplexFloat :=
  if z.im == 0 && z.re.abs ≤ 1 then ⟨Float.asin z.re, z.im⟩
  else if z.re == 0 && z.im.abs ≤ 1 then ⟨z.re, Float.asinh z.im⟩
  else if z.im.isNaN then
    if z.re == 0 then ⟨z.re, nan⟩
    else if z.re.isInf then ⟨nan, z.re⟩
    else notANumber
  else if z.im.isInf then
    if z.re.isNaN then z
    else if z.re.isInf then ⟨copySign (pi / 4) z.re, z.im⟩
    else ⟨copySign 0 z.re, z.im⟩
  else if z.re.isInf then ⟨copySign (pi / 2) z.re, copySign z.re z.im⟩
  else
    let iz : ComplexFloat := ⟨-z.im, z.re⟩
    let zz := z.mul z
    let root := sqrt ⟨1 - zz.re, -zz.im⟩
    let w := log (iz.add root)
    ⟨w.im, -w.re⟩

def acos (z : ComplexFloat) : ComplexFloat :=
  let w := asin z
  ⟨pi / 2 - w.re, -w.im⟩

def atan (z : ComplexFloat) : ComplexFloat :=
  if z.im == 0 then ⟨Float.atan z.re, z.im⟩
  else if z.re == 0 && z.im.abs ≤ 1 then ⟨z.re, Float.atanh z.im⟩
  else if z.isInf then
    if z.re.isNaN then ⟨nan, copySign 0 z.im⟩ else ⟨copySign (pi / 2) z.re, copySign 0 z.im⟩
  else if z.re.isNaN || z.im.isNaN then notANumber
  else
    let xx := z.re * z.re
    let a := 1 - xx - z.im * z.im
    if a == 0 then notANumber
    else
      let w := reducePi (0.5 * Float.atan2 (2 * z.re) a)
      let low := z.im - 1
      let b := xx + low * low
      if b == 0 then notANumber
      else
        let high := z.im + 1
        ⟨w, 0.25 * Float.log ((xx + high * high) / b)⟩

def asinh (z : ComplexFloat) : ComplexFloat :=
  if z.im == 0 && z.re.abs ≤ 1 then ⟨Float.asinh z.re, z.im⟩
  else if z.re == 0 && z.im.abs ≤ 1 then ⟨z.re, Float.asin z.im⟩
  else if z.re.isInf then
    if z.im.isInf then ⟨z.re, copySign (pi / 4) z.im⟩
    else if z.im.isNaN then z
    else ⟨z.re, copySign 0 z.im⟩
  else if z.re.isNaN then
    if z.im == 0 then z
    else if z.im.isInf then ⟨z.im, z.re⟩
    else notANumber
  else if z.im.isInf then ⟨copySign z.im z.re, copySign (pi / 2) z.im⟩
  else
    let zz := z.mul z
    log (z.add (sqrt ⟨1 + zz.re, zz.im⟩))

def acosh (z : ComplexFloat) : ComplexFloat :=
  if z.isZero then ⟨0, copySign (pi / 2) z.im⟩
  else
    let w := acos z
    if w.im ≤ 0 then ⟨-w.im, w.re⟩ else ⟨w.im, -w.re⟩

def atanh (z : ComplexFloat) : ComplexFloat :=
  let w := atan ⟨-z.im, z.re⟩
  ⟨w.im, -w.re⟩

end ExprCompiler.ComplexFloat
