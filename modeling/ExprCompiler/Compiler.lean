import ExprCompiler.Interpreter
import ExprCompiler.Lowering
import ExprCompiler.Script.Run

/-!
# The compiler

From a tree to a callable function: find the parameters, lower the tree, build the result.
Whatever fails on the way, faults included, is reported as one kind of failure.
-/

namespace ExprCompiler

/-- How to compile. Without parameters those are the free symbols of the tree. -/
structure Options where
  params : Option (List String) := none
  constants : Constants := .builtin
  operators : Operators := .builtin
  registry : Registry := .builtin
  backend : Backend := Interpreter.backend
  maxDepth : Nat := Node.defaultMaxDepth

namespace Options

def withParams (o : Options) (names : List String) : Options := { o with params := some names }

/-- Parameters named by the texts of nodes; absent nodes are left out. -/
def withParamNodes (o : Options) (ns : List Node) : Except Failure Options := do
  let present := ns.filter fun
    | .absent => false
    | _ => true
  return o.withParams (← present.mapM Node.text)

def withConstants (o : Options) (t : Constants) : Options :=
  { o with constants := Table.overlay o.constants t }

def withOperators (o : Options) (t : Operators) : Options :=
  { o with operators := Table.overlay o.operators t }

def withRegistry (o : Options) (t : Registry) : Options :=
  { o with registry := Table.overlay o.registry t }

def withBackend (o : Options) (b : Backend) : Options := { o with backend := b }

/-- Sets the depth limit, unless it is not positive. -/
def withMaxDepth (o : Options) (n : Int) : Options :=
  if 0 < n then { o with maxDepth := n.toNat } else o

def rules (o : Options) : Lowering.Rules := ⟨o.constants, o.operators⟩

/-- Compiles a target expression over given parameters. -/
def compileTarget (o : Options) (t : Target) (params : List String) : Except Failure Function :=
  Function.compile o.backend o.registry t params

/-- The steps of compilation, each with a failure of its own. -/
def compileSteps (o : Options) (n : Node) : Except Failure Function := do
  let params ←
    match o.params with
    | some params => pure params
    | none => n.freeSymbols o.maxDepth
  let t ← Lowering.lower o.rules o.maxDepth n
  o.compileTarget t params

/-- Compiles a tree. -/
def compile (o : Options) (n : Node) : Except Failure Function :=
  match n with
  | .absent => .error (.notCompilable (.lowering "" .absentNode))
  | n => (o.compileSteps n).mapError .notCompilable

/-- Compiles a symbolic expression. -/
def compileExpr (o : Options) (e : Expr) : Except Failure Function :=
  o.compile (.symbolic (some e))

end Options

end ExprCompiler
