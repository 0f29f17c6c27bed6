import ExprCompiler.Function

/-!
# Scripts

The language of generated scripts: the part of an ordinary scripting language that they are written
in, as terms, with the functions that its engine has.
-/

namespace ExprCompiler.Script

/-- Operators that a script chains, associating to the left. -/
inductive Chain where
  | plus
  | times
  | divide
  | lt
  | le
  | gt
  | ge
deriving DecidableEq, Repr

/-- The script's own mathematical functions. -/
inductive Math where
  /-- The sign, which leaves zeros, falsehood and NaN as they are. -/
  | sign
  | unary (f : Float → Float)
  | binary (f : Float → Float → Float)
  /-- A function of any number of arguments with its value at none. -/
  | fold (start : Float) (f : Float → Float → Float)

/-- The sign that stands between two operands. -/
def Chain.symbol : Chain → String
  | .plus => "+"
  | .times => "*"
  | .divide => "/"
  | .lt => "<"
  | .le => "<="
  | .gt => ">"
  | .ge => ">="

/-- The operators of scripts that stand between two operands. -/
inductive Operator where
  | or
  | and
  | same
  | different
  | minus
  | chain (op : Chain)
deriving DecidableEq, Repr

namespace Operator

def all : List Operator :=
  [.or, .and, .same, .different, .minus, .chain .plus, .chain .times, .chain .divide, .chain .lt,
    .chain .le, .chain .gt, .chain .ge]

def symbol : Operator → String
  | .or => "||"
  | .and => "&&"
  | .same => "==="
  | .different => "!=="
  | .minus => "-"
  | .chain op => op.symbol

/-- How strongly an operator binds its operands. -/
def level : Operator → Nat
  | .or => 2
  | .and => 3
  | .same | .different => 4
  | .chain .lt | .chain .le | .chain .gt | .chain .ge => 5
  | .minus | .chain .plus => 6
  | .chain .times | .chain .divide => 7

end Operator

/-- What a script can call. -/
inductive Callee where
  | toNumber
  | math (f : Math)
  /-- A call back into the registry. -/
  | registry (name : String)
  /-- A variable that is no parameter, which fails when it is reached. -/
  | unbound (name : String)

inductive Term where
  | param (i : Nat)
  | bool (b : Bool)
  | number (x : Float)
  | neg (t : Term)
  | not (t : Term)
  | binary (op : Operator) (a b : Term)
  | choice (condition value otherwise : Term)
  | call (f : Callee) (ts : List Term)

def chain? : String → Option Chain
  | "+" => some .plus
  | "*" => some .times
  | "/" => some .divide
  | "<" => some .lt
  | "<=" => some .le
  | ">" => some .gt
  | ">=" => some .ge
  | _ => none

/-! ## The script's functions -/

/-- The integer that a double is, unless it is a negative zero or beyond `2^53`. -/
def whole? (x : Float) : Option Int :=
  match Numeral.rational? x with
  | some q =>
    if q.den == 1 && q.num.natAbs ≤ 2 * Numeral.leadingBit && !(q == 0 && Numeral.signBit x)
    then some q.num
    else none
  | none => none

/-- The power of two whole numbers, if it fits a signed word. -/
def wholePower? (b e : Int) : Option Int :=
  if e < 0 || (1 < b.natAbs && 63 ≤ e) then none
  else
    let p := if 1 < b.natAbs then Int.pow b e.toNat
      else Int.pow b (if e == 0 then 0 else 2 - e.toNat % 2)
    if p.natAbs < Numeral.signedBound then some p else none

/-- The script's power: that of doubles, but a NaN exponent, or an infinite one over `±1`, gives
NaN. Whole powers that fit a word are exact before they are rounded. -/
def power (x y : Float) : Float :=
  if y.isNaN || (x.abs == 1 && y.isInf) then Elementary.nan
  else
    match whole? x, whole? y with
    | some b, some e =>
      match wholePower? b e with
      | some p => Numeral.nearest (p : Rat)
      | none => Elementary.power x y
    | _, _ => Elementary.power x y

/-- The script's product. Whole factors are multiplied as such, so that a zero product of theirs is
positive; only a zero and a minus one give a negative zero. -/
def product (x y : Float) : Float :=
  match whole? x, whole? y with
  | some a, some b => if (a == 0 && b < -1) || (a < -1 && b == 0) then 0 else x * y
  | _, _ => x * y

/-- A NaN anywhere makes an extreme a NaN. -/
def strict (f : Float → Float → Float) (x y : Float) : Float :=
  if x.isNaN || y.isNaN then Elementary.nan else f x y

def lesser (x y : Float) : Float :=
  if x == 0 && y == 0 then (if Numeral.signBit x then x else y) else if x < y then x else y

def greater (x y : Float) : Float :=
  if x == 0 && y == 0 then (if Numeral.signBit x then y else x) else if y < x then x else y

/-- The callables that scripts have functions of their own for. -/
def mathFunctions : Table Math := [
  ("sin", .unary Float.sin),
  ("cos", .unary Float.cos),
  ("tan", .unary Float.tan),
  ("asin", .unary Float.asin),
  ("acos", .unary Float.acos),
  ("atan", .unary Float.atan),
  ("sinh", .unary Elementary.sinh),
  ("cosh", .unary Elementary.cosh),
  ("tanh", .unary Float.tanh),
  ("asinh", .unary Float.asinh),
  ("acosh", .unary Float.acosh),
  ("atanh", .unary Float.atanh),
  ("exp", .unary Float.exp),
  ("sqrt", .unary Float.sqrt),
  ("abs", .unary Float.abs),
  ("floor", .unary Float.floor),
  ("ceil", .unary Float.ceil),
  ("sign", .sign),
  ("min", .fold Elementary.infinity (strict lesser)),
  ("max", .fold (-Elementary.infinity) (strict greater)),
  ("atan2", .binary Float.atan2),
  ("^", .binary power)]

/-- The name of a function inside scripts. -/
def functionName (name : String) : String := "Math." ++ if name == "^" then "pow" else name

/-- The functions of scripts by their names there. -/
def functions : Table Math :=
  ("Math.log", .unary Float.log) :: mathFunctions.map fun e ↦ (functionName e.1, e.2)

end ExprCompiler.Script
