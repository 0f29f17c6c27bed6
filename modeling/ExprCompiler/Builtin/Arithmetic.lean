import ExprCompiler.Builtin.Basic

/-!
# Arithmetic

Sums, products, quotients and powers. Exact operands give exact results; a double or a complex
number among the operands makes the whole operation inexact.
-/

namespace ExprCompiler.Builtin

def add : Callable := fun args ↦
  match Value.widest args with
  | .complex => .ok (.complex (args.foldl (fun acc a ↦ acc.add a.toComplex) ⟨0, 0⟩))
  | .float => .ok (.float (args.foldl (fun acc a ↦ acc + a.asFloat) 0))
  | _ => do return .rational ((← args.mapM exact).foldl (· + ·) 0)

def mul : Callable := fun args ↦
  match Value.widest args with
  | .complex => .ok (.complex (args.foldl (fun acc a ↦ acc.mul a.toComplex) ⟨1, 0⟩))
  | .float => .ok (.float (args.foldl (fun acc a ↦ acc * a.asFloat) 1))
  | _ => do return .rational ((← args.mapM exact).foldl (· * ·) 1)

def negate (x : Value) : Except Failure Value := mul [.int (-1), x]

/-- The negative of one argument, or the difference of two. -/
def sub : Callable
  | [x] => negate x
  | [x, y] => do add [x, ← negate y]
  | args => complain "-" (.oneOrTwoArguments args.length)

/-- The quotient. By an exact zero it is that of doubles. -/
def div : Callable :=
  two "/" fun a b ↦
    match Value.widest [a, b] with
    | .complex => .ok (.complex (a.toComplex.div b.toComplex))
    | .float => .ok (.float (a.asFloat / b.asFloat))
    | _ => do
      let q ← exact b
      if q == 0 then return .float (a.asFloat / 0.0)
      let p ← exact a
      return .rational (p / q)

/-- The greatest magnitude of an exponent for which powers are exact. -/
def maxExactExponent : Int := 1024

/-- `q^n`, where `q` is not zero if `n` is negative. -/
def ratPow (q : Rat) (n : Int) : Rat :=
  let k := n.natAbs
  if n < 0 then Rat.divInt (Nat.pow q.den k) (Int.pow q.num k)
  else mkRat (Int.pow q.num k) (Nat.pow q.den k)

/-- The power. Small integer powers of exact numbers are exact, but for negative powers of
zero. -/
def pow : Callable :=
  two "^" fun b e ↦
    let inexact : Value := .float (Elementary.power b.asFloat e.asFloat)
    match Value.widest [b, e] with
    | .complex => .ok (.complex (b.toComplex.pow e.toComplex))
    | .float => .ok inexact
    | _ => do
      let n ← exact e
      if n.den == 1 && -maxExactExponent ≤ n.num && n.num ≤ maxExactExponent then
        let q ← exact b
        if q == 0 && n.num < 0 then return inexact
        return .rational (ratPow q n.num)
      else return inexact

end ExprCompiler.Builtin
