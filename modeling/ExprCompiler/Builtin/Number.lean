import ExprCompiler.Builtin.Arithmetic

/-!
# Parts, rounding and number theory
-/

namespace ExprCompiler.Builtin

def identity : Callable := one "identity" .ok

def abs : Callable :=
  one "abs" fun
    | .bool b => .ok (.int (if b then 1 else 0))
    | .rational q => .ok (.rational q.abs)
    | .float x => .ok (.float x.abs)
    | .complex z => .ok (.float z.abs)
    | .invalid => .ok (.float 0)

/-- The direction of a number: its sign, or the point of the unit circle over a complex one. -/
def sign : Callable :=
  one "sign" fun
    | .bool b => .ok (.int (if b then 1 else 0))
    | .rational q => .ok (.int q.num.sign)
    | .float x =>
      .ok <| .float <|
        if x.isNaN then Elementary.nan else if 0 < x then 1 else if x < 0 then -1 else 0
    | .complex z =>
      .ok (if z.isZero then .int 0 else .complex (z.div (.ofReal z.abs)))
    | .invalid => .ok (.int 0)

def realPart : Callable :=
  one "real" fun
    | .complex z => .ok (.float z.re)
    | x => .ok x

def imagPart : Callable :=
  one "imag" fun
    | .complex z => .ok (.float z.im)
    | _ => .ok (.int 0)

def conjugate : Callable :=
  one "conj" fun
    | .complex z => .ok (.complex z.conj)
    | x => .ok x

/-- Rounding to an integer, exact for exact numbers. -/
def rounding (name : String) (f : Float → Float) (g : Rat → Int) : Callable :=
  one name fun x ↦ do
    checkReal name [x]
    match x.rat? with
    | some q => return .int (g q)
    | none => return .float (f x.asFloat)

/-- The remainder with the sign of the divisor. By an exact zero it is that of doubles. -/
def mod : Callable :=
  two "mod" fun a b ↦ do
    checkReal "mod" [a, b]
    let x := a.asFloat
    let y := b.asFloat
    let m := Elementary.remainder x y
    let inexact : Value :=
      .float (if m != 0 && decide (m < 0) != decide (y < 0) then m + y else m)
    match a.rat?, b.rat? with
    | some p, some q =>
      if q == 0 then return inexact
      return .rational (p - q * ((p / q).floor : Rat))
    | _, _ => return inexact

/-- The greatest integer whose factorial is computed exactly. -/
def maxExactFactorial : Int := 10000

def factorialNat (n : Nat) : Nat := (List.range n).foldl (fun acc i ↦ acc * (i + 1)) 1

/-- The factorial of an integer is exact, up to a limit; elsewhere it is gamma shifted by one. -/
def factorial : Callable :=
  one "factorial" fun x ↦ do
    checkReal "factorial" [x]
    match x with
    | .rational q =>
      if q.den == 1 then
        if q.num < 0 then complain "factorial" (.negativeArgument x)
        else if maxExactFactorial < q.num then return .float Elementary.infinity
        else return .int (factorialNat q.num.toNat)
      else return .float (Elementary.gamma (x.asFloat + 1))
    | x => return .float (Elementary.gamma (x.asFloat + 1))

/-! ## Functions of doubles -/

/-- A function of two doubles. -/
def realBinary (name : String) (f : Float → Float → Float) : Callable :=
  two name fun a b ↦ do
    checkReal name [a, b]
    return .float (f a.asFloat b.asFloat)

/-- Zeta right of one; left of it the call has no outcome. -/
def zeta : Callable :=
  one "zeta" fun x ↦ do
    checkReal "zeta" [x]
    match Elementary.zeta? x.asFloat with
    | some y => return .float y
    | none => throw (.fault .outOfDomain)

def naturalLog : Callable := analytic "log" Float.log (some ComplexFloat.log)

/-- The natural logarithm, or that to the base of a second argument. -/
def logarithm : Callable
  | [x] => naturalLog [x]
  | [x, b] => do
    let l ← naturalLog [x]
    let m ← naturalLog [b]
    div [l, m]
  | args => complain "log" (.oneOrTwoArguments args.length)

end ExprCompiler.Builtin
