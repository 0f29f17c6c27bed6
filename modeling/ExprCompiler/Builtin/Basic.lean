import ExprCompiler.Failure
import ExprCompiler.Table
import ExprCompiler.Elementary.Special

/-!
# Callables

A callable takes values and gives a value or a failure. A registry maps identifiers to callables;
an entry may also be empty, which hides an identifier.
-/

namespace ExprCompiler

abbrev Callable := List Value → Except Failure Value

/-- Callables by identifier. -/
abbrev Registry := Table (Option Callable)

namespace Builtin

/-- The exact content of a value whose rank is at most that of rationals. -/
def exact (v : Value) : Except Failure Rat :=
  match v.rat? with
  | some q => .ok q
  | none => .error (.fault .absent)

/-- Refuses the first complex argument. -/
def checkReal (name : String) (args : List Value) : Except Failure Unit :=
  match args.find? fun a ↦ a.rank == .complex with
  | some a => complain name (.complexArgument a)
  | none => .ok ()

/-- A callable of one argument. -/
def one (name : String) (f : Value → Except Failure Value) : Callable
  | [x] => f x
  | args => complain name (.argumentCount 1 args.length)

/-- A callable of two arguments. -/
def two (name : String) (f : Value → Value → Except Failure Value) : Callable
  | [x, y] => f x y
  | args => complain name (.argumentCount 2 args.length)

/-- A function on doubles, with its complex form if it has one. -/
def analytic (name : String) (f : Float → Float)
    (complex : Option (ComplexFloat → ComplexFloat)) : Callable :=
  one name fun x ↦
    match x, complex with
    | .complex z, some g => .ok (.complex (g z))
    | .complex _, none => complain name (.complexArgument x)
    | x, _ => .ok (.float (f x.asFloat))

end Builtin

end ExprCompiler
