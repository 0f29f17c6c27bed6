import ExprCompiler.Target
import ExprCompiler.Builtin.Registry

/-!
# Compiled functions

A backend turns a target expression over given parameters into an evaluator. A compiled function
checks its arguments before it evaluates.
-/

namespace ExprCompiler

/-- Evaluates for arguments in the order of the parameters, as many as there are. -/
abbrev Evaluator := List Value → Except Failure Value

structure Backend where
  name : String
  build : Target → List String → Registry → Except Failure Evaluator

/-- A compiled function. -/
structure Function where
  params : List String
  expr : Target
  backend : String
  evaluator : Evaluator

/-- The value as a double; complex numbers are refused unless their imaginary part is zero. -/
def Value.real (v : Value) : Except Failure Float :=
  match v with
  | .complex z => if z.im != 0 then .error (.notReal v) else .ok z.re
  | v =>
    match v.toFloat with
    | (x, true) => .ok x
    | (_, false) => .error (.notReal v)

namespace Function

def text (f : Function) : String := "(" ++ ", ".intercalate f.params ++ ") -> " ++ f.expr.text

/-- The first invalid argument, by position and parameter. -/
def firstInvalid? (i : Nat) : List String → List Value → Option (Nat × String)
  | p :: ps, a :: as => if a.isValid then firstInvalid? (i + 1) ps as else some (i, p)
  | _, _ => none

/-- The value for arguments in the order of the parameters. -/
def eval (f : Function) (args : List Value) : Except Failure Value :=
  if args.length != f.params.length then .error (.arity f.params.length args.length)
  else
    match firstInvalid? 0 f.params args with
    | some (i, p) => .error (.invalidArgument i p)
    | none => f.evaluator args

/-- The real value for real arguments. -/
def call (f : Function) (args : List Float) : Except Failure Float := do
  (← f.eval (args.map .float)).real

/-- `call` for a function of one parameter; others are refused before anything is evaluated. -/
def callOne (f : Function) (x : Float) : Except Failure Float :=
  if f.params.length != 1 then .error (.arity f.params.length 1) else f.call [x]

/-- The first name that occurs twice. -/
def firstDuplicate? (seen : List String) : List String → Option String
  | [] => none
  | p :: ps => if seen.contains p then some p else firstDuplicate? (p :: seen) ps

/-- A backend's failure of its own is set in the words of the compiler; faults pass through. -/
def wrapped (backend : String) : Failure → Failure
  | .fault f => .fault f
  | .building name why => .building name why
  | e => .building "" (.backend backend e.message)

/-- Builds a function over parameters without repetition. A variable that is none of them is
reported when evaluation reaches it. -/
def compile (b : Backend) (r : Registry) (t : Target) (params : List String) :
    Except Failure Function :=
  match t with
  | .absent => .error (.building "" .absentExpression)
  | t =>
    match firstDuplicate? [] params with
    | some p => .error (.building "" (.duplicateParameter p))
    | none => do
      let evaluator ← (b.build t params r).mapError (wrapped b.name)
      return ⟨params, t, b.name, evaluator⟩

end Function

end ExprCompiler
