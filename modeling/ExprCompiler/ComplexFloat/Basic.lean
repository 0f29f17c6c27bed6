import ExprCompiler.Elementary.Basic
import ExprCompiler.Numeral.Layout

/-!
# Complex numbers over doubles

Arithmetic on pairs of doubles. Products are the plain formula; quotients scale by the larger part
of the divisor and, where both parts come out as NaN, mend infinities and zeros.
-/

namespace ExprCompiler

structure ComplexFloat where
  re : Float
  im : Float

namespace ComplexFloat

open Elementary (infinity nan hypotenuse)
open Numeral (copySign signBit)

def ofReal (x : Float) : ComplexFloat := ⟨x, 0⟩

/-- The point at infinity, with both parts infinite. -/
def inf : ComplexFloat := ⟨infinity, infinity⟩

def notANumber : ComplexFloat := ⟨nan, nan⟩

def isInf (z : ComplexFloat) : Bool := z.re.isInf || z.im.isInf

/-- Equality of the parts as numbers: zeros of either sign agree, a NaN differs from itself. -/
def same (z w : ComplexFloat) : Bool := z.re == w.re && z.im == w.im

def isZero (z : ComplexFloat) : Bool := z.re == 0 && z.im == 0

def neg (z : ComplexFloat) : ComplexFloat := ⟨-z.re, -z.im⟩
def conj (z : ComplexFloat) : ComplexFloat := ⟨z.re, -z.im⟩
def add (z w : ComplexFloat) : ComplexFloat := ⟨z.re + w.re, z.im + w.im⟩

def mul (z w : ComplexFloat) : ComplexFloat :=
  ⟨z.re * w.re - z.im * w.im, z.re * w.im + z.im * w.re⟩

/-- A signed one for an infinity and a signed zero for anything else. -/
private def unitOfInf (x : Float) : Float := copySign (if x.isInf then 1 else 0) x

/-- The quotient where the scaled formula gives NaN in both parts: by zero it is infinite, an
infinity over a number is infinite, a number over an infinity is zero. -/
private def divMended (n m : ComplexFloat) (e f : Float) : ComplexFloat :=
  let finite (x : Float) : Bool := !x.isNaN && !x.isInf
  if m.isZero && (!n.re.isNaN || !n.im.isNaN) then
    let i := copySign infinity m.re
    ⟨i * n.re, i * n.im⟩
  else if n.isInf && finite m.re && finite m.im then
    let a := unitOfInf n.re
    let b := unitOfInf n.im
    ⟨infinity * (a * m.re + b * m.im), infinity * (b * m.re - a * m.im)⟩
  else if m.isInf && finite n.re && finite n.im then
    let c := unitOfInf m.re
    let d := unitOfInf m.im
    ⟨0 * (n.re * c + n.im * d), 0 * (n.im * c - n.re * d)⟩
  else ⟨e, f⟩

def div (n m : ComplexFloat) : ComplexFloat :=
  let (e, f) :=
    if m.im.abs ≤ m.re.abs then
      let ratio := m.im / m.re
      let den := m.re + ratio * m.im
      ((n.re + n.im * ratio) / den, (n.im - n.re * ratio) / den)
    else
      let ratio := m.re / m.im
      let den := m.im + ratio * m.re
      ((n.re * ratio + n.im) / den, (n.im * ratio - n.re) / den)
  if e.isNaN && f.isNaN then divMended n m e f else ⟨e, f⟩

def abs (z : ComplexFloat) : Float := hypotenuse z.re z.im

def phase (z : ComplexFloat) : Float := Float.atan2 z.im z.re

/-- `(re±imi)`, the sign of the imaginary part always written. -/
def text (z : ComplexFloat) : String :=
  let im := Numeral.general z.im
  let im := if im.startsWith "-" || im.startsWith "+" then im else "+" ++ im
  "(" ++ Numeral.general z.re ++ im ++ "i)"

end ComplexFloat

end ExprCompiler
