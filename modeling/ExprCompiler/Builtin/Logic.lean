import ExprCompiler.Builtin.Basic

/-!
# Comparison, logic and order

Comparisons of exact numbers are exact. A NaN is neither below nor above anything, and logic takes
every number but zero for true.
-/

namespace ExprCompiler.Builtin

/-- The order of two real values. Where a NaN is involved neither comes first. -/
def order (a b : Value) : Ordering :=
  match a.rat?, b.rat? with
  | some p, some q => if p < q then .lt else if q < p then .gt else .eq
  | _, _ =>
    let x := a.asFloat
    let y := b.asFloat
    if x < y then .lt else if y < x then .gt else .eq

def equal (a b : Value) : Bool :=
  match Value.widest [a, b] with
  | .complex => a.toComplex.same b.toComplex
  | .float => a.asFloat == b.asFloat
  | _ => order a b == .eq

def equality (name : String) (negated : Bool) : Callable :=
  two name fun a b ↦ .ok (.bool (equal a b != negated))

def comparison (name : String) (holds : Ordering → Bool) : Callable :=
  two name fun a b ↦ do
    checkReal name [a, b]
    if a.asFloat.isNaN || b.asFloat.isNaN then return .bool false
    return .bool (holds (order a b))

def conjunction : Callable := fun args ↦ .ok (.bool (args.all Value.truth))
def disjunction : Callable := fun args ↦ .ok (.bool (args.any Value.truth))
def negation : Callable := one "!" fun x ↦ .ok (.bool !x.truth)

/-- Keeps the better of two values, going through the rest. The first NaN after the start ends
it. -/
def extreme (better : Ordering → Bool) (best : Value) : List Value → Value
  | [] => best
  | a :: rest =>
    if a.asFloat.isNaN then a
    else extreme better (if better (order a best) then a else best) rest

def extremum (name : String) (better : Ordering → Bool) : Callable
  | [] => complain name .noArguments
  | a :: rest => do
    checkReal name (a :: rest)
    return extreme better a rest

/-- Zero below zero and one above; at zero one half, unless a second argument says otherwise. -/
def heaviside : Callable := fun args ↦ do
  match args with
  | [_] | [_, _] => checkReal "heaviside" args
  | _ => complain "heaviside" (.oneOrTwoArguments args.length)
  let x := args.headD .invalid
  if x.asFloat.isNaN then return .float Elementary.nan
  match order x (.int 0) with
  | .lt => return .int 0
  | .gt => return .int 1
  | .eq => return (args[1]?).getD (.rational (1 / 2))

end ExprCompiler.Builtin
