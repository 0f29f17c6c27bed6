import ExprCompiler.Expr.Basic
import ExprCompiler.Table

/-!
# Direct evaluation

The value of an expression in doubles under given values of its symbols. It walks the tree on
every call and serves where compilation is not possible.
-/

namespace ExprCompiler

/-- Why an expression has no value in doubles. -/
inductive EvalError where
  | absentExpression
  | tooDeep
  | unbound (name : String)
  | unimplemented (name : String)
  | oneArgument (got : Nat)
  | twoArguments (got : Nat)
  | oneOrTwoArguments (got : Nat)
  | someArgument
  | notReal (display : String)
  | noValue (tag name : String)
  | fault (f : Fault)
deriving DecidableEq, Repr

def EvalError.message : EvalError → String
  | .absentExpression => "nil expression"
  | .tooDeep => s!"expression deeper than {Expr.maxDepth}"
  | .unbound name => "unbound symbol " ++ name
  | .unimplemented name => "no numeric implementation for " ++ name
  | .oneArgument got => s!"expected 1 argument, got {got}"
  | .twoArguments got => s!"expected 2 arguments, got {got}"
  | .oneOrTwoArguments got => s!"expected 1 or 2 arguments, got {got}"
  | .someArgument => "expected at least 1 argument"
  | .notReal display => display ++ " is not real"
  | .noValue tag name => tag ++ " " ++ name ++ " has no numeric value"
  | .fault f => f.message

namespace Elementary

/-- The lesser of two doubles. Minus infinity wins over a NaN, and `-0` is below `0`. -/
def minimum (x y : Float) : Float :=
  if isNegInf x || isNegInf y then -infinity
  else if x.isNaN || y.isNaN then nan
  else if x == 0 && x == y then (if Numeral.signBit x then x else y)
  else if x < y then x else y

/-- The greater of two doubles. Plus infinity wins over a NaN, and `0` is above `-0`. -/
def maximum (x y : Float) : Float :=
  if isPosInf x || isPosInf y then infinity
  else if x.isNaN || y.isNaN then nan
  else if x == 0 && x == y then (if Numeral.signBit x then y else x)
  else if y < x then x else y

/-- The remainder with the sign of the divisor. -/
def modulo (x y : Float) : Float :=
  let m := remainder x y
  if m != 0 && decide (m < 0) != decide (y < 0) then m + y else m

end Elementary

namespace Expr

/-- A function on doubles as evaluation knows it. -/
abbrev FloatFunction := List Float → Except EvalError Float

namespace FloatFunction

def unary (f : Float → Float) : FloatFunction
  | [x] => .ok (f x)
  | xs => .error (.oneArgument xs.length)

def binary (f : Float → Float → Float) : FloatFunction
  | [x, y] => .ok (f x y)
  | xs => .error (.twoArguments xs.length)

def fold (f : Float → Float → Float) : FloatFunction
  | [] => .error .someArgument
  | x :: xs => .ok (xs.foldl f x)

def ofTruth (b : Bool) : Float := if b then 1 else 0

def sign (x : Float) : Float := if 0 < x then 1 else if x < 0 then -1 else x

def log : FloatFunction
  | [x] => .ok (Float.log x)
  | [x, b] => .ok (Float.log x / Float.log b)
  | xs => .error (.oneOrTwoArguments xs.length)

def heaviside : FloatFunction
  | [x] => .ok (if 0 < x then 1 else if x < 0 then 0 else 0.5)
  | [x, atZero] => .ok (if 0 < x then 1 else if x < 0 then 0 else atZero)
  | xs => .error (.oneOrTwoArguments xs.length)

def zeta : FloatFunction
  | [x] =>
    match Elementary.zeta? x with
    | some y => .ok y
    | none => .error (.fault .outOfDomain)
  | xs => .error (.oneArgument xs.length)

/-- The functions that evaluation knows, by name. -/
def table : Table FloatFunction := [
  ("sin", unary Float.sin),
  ("cos", unary Float.cos),
  ("tan", unary Float.tan),
  ("asin", unary Float.asin),
  ("acos", unary Float.acos),
  ("atan", unary Float.atan),
  ("sinh", unary Elementary.sinh),
  ("cosh", unary Elementary.cosh),
  ("tanh", unary Float.tanh),
  ("asinh", unary Float.asinh),
  ("acosh", unary Float.acosh),
  ("atanh", unary Float.atanh),
  ("exp", unary Float.exp),
  ("Abs", unary Float.abs),
  ("floor", unary Float.floor),
  ("ceiling", unary Float.ceil),
  ("sign", unary sign),
  ("gamma", unary Elementary.gamma),
  ("erf", unary Elementary.erf),
  ("erfc", unary Elementary.erfc),
  ("re", unary id),
  ("im", unary fun _ ↦ 0),
  ("log", log),
  ("atan2", binary Float.atan2),
  ("Mod", binary Elementary.modulo),
  ("Heaviside", heaviside),
  ("factorial", unary fun x ↦ Elementary.gamma (x + 1)),
  ("digamma", unary Elementary.digamma),
  ("zeta", zeta),
  ("beta", binary Elementary.beta),
  ("Min", fold Elementary.minimum),
  ("Max", fold Elementary.maximum),
  ("And", fold fun a b ↦ ofTruth (a != 0 && b != 0)),
  ("Or", fold fun a b ↦ ofTruth (a != 0 || b != 0)),
  ("Not", unary fun x ↦ ofTruth (x == 0))]

end FloatFunction

/-- Guards one step down the tree. -/
def descend {α : Type} (depth : Nat) (next : Unit → Except EvalError α) :
    Except EvalError α :=
  if maxDepth ≤ depth then .error .tooDeep else next ()

mutual

/-- The value of a node that stands `depth` below the root. -/
def evalAt (env : Table Float) (depth : Nat) : Expr → Except EvalError Float
  | .num q => .ok (Numeral.nearest q)
  | .float x => .ok x
  | .sym name =>
    match env.get? name with
    | some x => .ok x
    | none => .error (.unbound name)
  | .add terms => do return (← evalAll env depth terms).foldl (· + ·) 0
  | .mul factors => do return (← evalAll env depth factors).foldl (· * ·) 1
  | .pow base exponent => do
    let b ← descend depth fun _ ↦ evalAt env (depth + 1) base
    let e ← descend depth fun _ ↦ evalAt env (depth + 1) exponent
    return Elementary.power b e
  | .func name args =>
    match FloatFunction.table.get? name with
    | none => .error (.unimplemented name)
    | some f => do f (← evalAll env depth args)
  | .const c => if c.value.im != 0 then .error (.notReal c.display) else .ok c.value.re
  | .rel op lhs rhs => do
    let a ← descend depth fun _ ↦ evalAt env (depth + 1) lhs
    let b ← descend depth fun _ ↦ evalAt env (depth + 1) rhs
    return FloatFunction.ofTruth (op.holds a b)
  | .piecewise pieces => evalPieces env depth pieces
  | .pair value _ => descend depth fun _ ↦ evalAt env (depth + 1) value
  | .atom tag name => .error (.noValue tag name)

def evalAll (env : Table Float) (depth : Nat) : List Expr → Except EvalError (List Float)
  | [] => .ok []
  | e :: es => do
    let x ← descend depth fun _ ↦ evalAt env (depth + 1) e
    let xs ← evalAll env depth es
    return x :: xs

/-- The value of the first branch whose condition holds; NaN if none does. A condition that is a
NaN does not hold. -/
def evalPieces (env : Table Float) (depth : Nat) : List (Expr × Expr) → Except EvalError Float
  | [] => .ok Elementary.nan
  | (e, c) :: ps => do
    let x ← descend depth fun _ ↦ evalAt env (depth + 1) c
    if x != 0 && !x.isNaN then descend depth fun _ ↦ evalAt env (depth + 1) e
    else evalPieces env depth ps

end

/-- The value of an expression in doubles. -/
def eval (e : Expr) (env : Table Float) : Except EvalError Float := evalAt env 0 e

end Expr

end ExprCompiler
