import ExprCompiler.Compiler
import ExprCompiler.Expr.Eval
import ExprCompiler.Sampling.Series
import ExprCompiler.Traced

/-!
# Sampling expressions

An expression is compiled once and evaluated at every point. If the compiler refuses it, the
points are evaluated on the tree itself, and the refusal is left as an event. The rows of a surface
are tasks of their own: a fault in one of them is not a failure of the surface, but the end of the
process.
-/

namespace ExprCompiler.Sampling

/-- An expression that is evaluated directly, and why. -/
structure Fallback where
  expr : Expr
  cause : Failure

/-- Why there is no sample. -/
inductive Halt where
  | failure (e : Failure)
  /-- A task came to a fault, and nobody recovers from that. -/
  | crash (f : Fault)

/-- What the failure of a task is to those who wait for it. -/
def Halt.ofTask : Failure → Halt
  | .fault f => .crash f
  | e => .failure e

/-- Sampling leaves its fallbacks behind. -/
abbrev Sampled := Traced Fallback Halt

def Sampled.ofExcept {α : Type} (r : Except Failure α) : Sampled α :=
  Traced.ofExcept (r.mapError .failure)

def Sampled.fail {α : Type} (e : Failure) : Sampled α := Traced.fail (.failure e)

def defaultSamples : Nat := 200

structure Plotter where
  samples : Nat := defaultSamples
  options : Options := {}

/-- Evaluates at a point. -/
abbrev PointEvaluator := List Float → Except Failure Float

/-- Sets the number of points of a series, unless it is not positive. -/
def Plotter.withSamples (p : Plotter) (n : Int) : Plotter :=
  if 0 < n then { p with samples := n.toNat } else p

/-- An evaluation error in the words of the tree evaluator. -/
def failureOf : EvalError → Failure
  | .fault f => .fault f
  | e => .reported e.message

/-- The assignment of arguments to parameters; a later parameter of the same name wins. -/
def environment (params : List String) (args : List Float) : Table Float :=
  (params.zip args).foldl (fun env p ↦ env.insert p.1 p.2) []

/-- Evaluates on the tree. -/
def evaluateDirectly (e : Expr) (params : List String) : PointEvaluator := fun args ↦
  if args.length != params.length then .error (.arity params.length args.length)
  else (e.eval (environment params args)).mapError failureOf

/-- The first symbol that is none of the parameters. -/
def firstUnbound? (e : Expr) (params : List String) : Option String :=
  e.freeSymbols.find? fun name ↦ !params.contains name

/-- An evaluator over the given parameters: the compiled function, or else the tree if its symbols
are among the parameters. -/
def Plotter.evaluator (p : Plotter) (e : Expr) (params : List String) : Sampled PointEvaluator :=
  match (p.options.withParams params).compileExpr e with
  | .ok f => pure f.call
  | .error cause => do
    Traced.emit ⟨e, cause⟩
    match firstUnbound? e params with
    | some name => Sampled.fail (.unbound name)
    | none => return evaluateDirectly e params

/-- Whether a failure would come again at every point. A fault stops everything. -/
def isFatal : Failure → Bool
  | .arity _ _ | .unbound _ | .fault _ => true
  | _ => false

/-- The value at a point, which is NaN where evaluation fails for this point alone. -/
def point (eval : PointEvaluator) (args : List Float) : Except Failure Float :=
  match eval args with
  | .ok y => .ok y
  | .error e => if isFatal e then .error e else .ok Elementary.nan

/-- The variable of an expression with one at most; without one it is `x`. -/
def soleParameter (e : Expr) : Except Failure String :=
  match e.freeSymbols with
  | [] => .ok "x"
  | [name] => .ok name
  | names => .error (.plotting (.freeSymbols e.render names.length))

/-- An expression that has to be there. -/
def required (e? : Option Expr) : Sampled Expr :=
  match e? with
  | some e => pure e
  | none => Sampled.fail (.plotting .absentExpression)

/-- Samples an expression of one variable. -/
def Plotter.function (p : Plotter) (e? : Option Expr) (lo hi : Float) : Sampled Series := do
  let e ← required e?
  let v ← Sampled.ofExcept (soleParameter e)
  let eval ← p.evaluator e [v]
  let xs := linspace lo hi p.samples
  let ys ← Sampled.ofExcept (xs.mapM fun x ↦ point eval [x])
  return ⟨e.render, xs, ys⟩

/-- Samples a given function. -/
def Plotter.callable (p : Plotter) (label : String) (f : Float → Float) (lo hi : Float) : Series :=
  let xs := linspace lo hi p.samples
  ⟨label, xs, xs.map f⟩

/-- Samples the curve of two expressions over one variable. -/
def Plotter.parametric (p : Plotter) (x? y? : Option Expr) (var : String) (lo hi : Float) :
    Sampled Series := do
  let x ← required x?
  let y ← required y?
  let fx ← p.evaluator x [var]
  let fy ← p.evaluator y [var]
  let points ← Sampled.ofExcept ((linspace lo hi p.samples).mapM fun t ↦ do
    let u ← point fx [t]
    let v ← point fy [t]
    return (u, v))
  return ⟨"(" ++ x.render ++ ", " ++ y.render ++ ")", points.map Prod.fst, points.map Prod.snd⟩

/-- One row of a surface, from left to right, which is the work of a task. -/
def row (eval : PointEvaluator) (xs : List Float) (y : Float) : Except Failure (List Float) :=
  xs.mapM fun x ↦ point eval [x, y]

/-- Samples an expression on a grid, with a worker that takes one row after the other; a canceled
request stops before the first row. -/
def Plotter.surface (p : Plotter) (e? : Option Expr) (x y : String) (xs ys : List Float)
    (canceled : Bool) : Sampled Surface := do
  let e ← required e?
  if xs.isEmpty || ys.isEmpty then Sampled.fail (.plotting .emptyGrid)
  let eval ← p.evaluator e [x, y]
  if canceled then Sampled.fail (.plotting .canceled)
  let z ← Traced.ofExcept ((ys.mapM (row eval xs)).mapError .ofTask)
  return ⟨e.render, xs, ys, z⟩

end ExprCompiler.Sampling
