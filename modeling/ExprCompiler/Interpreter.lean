import ExprCompiler.Function

/-!
# The interpreter

Building resolves variables to positions and callables to their implementations once; evaluation
then walks the code. The special forms `piecewise` and `pair` are built rather than called.
-/

namespace ExprCompiler.Interpreter

inductive Code where
  | slot (i : Nat)
  | unbound (name : String)
  | const (v : Value)
  | apply (name : String) (f : Callable) (args : List Code)
  /-- Values with their conditions. -/
  | branches (pieces : List (Code × Code))

mutual

/-- Resolves a target expression. A callable is looked up before its arguments are built. -/
def build (params : List String) (r : Registry) : Target → Except Failure Code
  | .var name =>
    match params.idxOf? name with
    | some i => .ok (.slot i)
    | none => .ok (.unbound name)
  | .lit v => if v.isValid then .ok (.const v) else .error (.building "" .invalidLiteral)
  | .call name args =>
    if name == "piecewise" then do return .branches (← buildPieces params r 0 args)
    else if name == "pair" then .error (.building "pair" .pairOutside)
    else
      match r.find? name with
      | none => .error (.building name .unimplemented)
      | some f => do return .apply name f (← buildAll params r args)
  | .foreign type _ => .error (.building "" (.unsupported type))
  | .absent => .error (.building "" (.unsupported "<nil>"))

def buildAll (params : List String) (r : Registry) : List Target → Except Failure (List Code)
  | [] => .ok []
  | t :: ts => do
    let c ← build params r t
    let cs ← buildAll params r ts
    return c :: cs

def buildPieces (params : List String) (r : Registry) (i : Nat) :
    List Target → Except Failure (List (Code × Code))
  | [] => .ok []
  | .call name [value, condition] :: rest => do
    if name != "pair" then throw (.building "piecewise" (.notAPair i))
    let v ← build params r value
    let c ← build params r condition
    let cs ← buildPieces params r (i + 1) rest
    return (v, c) :: cs
  | _ :: _ => .error (.building "piecewise" (.notAPair i))

end

mutual

def run (env : List Value) : Code → Except Failure Value
  | .slot i => .ok ((env[i]?).getD .invalid)
  | .unbound name => .error (.unbound name)
  | .const v => .ok v
  | .apply name f args => do
    let v ← f (← runAll env args)
    if v.isValid then return v else complain name .invalidResult
  | .branches pieces => runPieces env pieces

def runAll (env : List Value) : List Code → Except Failure (List Value)
  | [] => .ok []
  | c :: cs => do
    let v ← run env c
    let vs ← runAll env cs
    return v :: vs

/-- The value of the first branch whose condition holds; only that one is evaluated. -/
def runPieces (env : List Value) : List (Code × Code) → Except Failure Value
  | [] => .ok (.float Elementary.nan)
  | (value, condition) :: rest => do
    if (← run env condition).truth then run env value else runPieces env rest

end

def backend : Backend where
  name := "interpreter"
  build t params r := do
    let code ← build params r t
    return fun args ↦ run args code

end ExprCompiler.Interpreter
