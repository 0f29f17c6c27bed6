import ExprCompiler.Sampling.Plotter
import ExprCompiler.Service.Arguments
import ExprCompiler.Service.Counters
import ExprCompiler.Service.Document
import ExprCompiler.Service.Schema

/-!
# Tools

A request names a tool and carries its arguments; the response has a result or an error. What the
tool did on the way is left as events.
-/

namespace ExprCompiler.Service

open Sampling (Plotter linspace)

structure Request where
  id : String := ""
  tool : String := ""
  arguments : Arguments := []

structure Response where
  id : String
  result : Option Document := none
  text : String := ""
  error : String := ""

inductive ToolError where
  | unknownTool (name : String)
  | argument (cause : ArgumentError)
  | ranges
  | samples (limit : Nat) (got : Int)
  /-- Evaluation failed at a point of a list. -/
  | atPoint (index : Nat) (cause : Failure)
  | failure (cause : Failure)
  /-- A fault in a task of the tool, which nobody is left to report. -/
  | crash (fault : Fault)

namespace ToolError

/-- What keeps a tool from a sample. -/
def ofHalt : Sampling.Halt → ToolError
  | .failure e => .failure e
  | .crash f => .crash f

def message : ToolError → String
  | .unknownTool name => "unknown tool: " ++ name
  | .argument cause => cause.message
  | .ranges => "x_range and y_range must be [lo, hi]"
  | .samples limit got => s!"samples must be in 1..{limit}, got {got}"
  | .atPoint index cause => itemName "points" index ++ ": " ++ cause.message
  | .failure cause => cause.message
  | .crash fault => fault.message

/-- The fault behind an error, if the tool did not come to an end of its own. -/
def fault? : ToolError → Option Fault
  | .argument (.wire _ cause) => cause.fault?
  | .atPoint _ (.fault f) => some f
  | .failure (.fault f) => some f
  | _ => none

/-- What a client is told. -/
def report (e : ToolError) : String :=
  match e.fault? with
  | some f => "internal error: " ++ f.message
  | none => e.message

end ToolError

/-- A tool that is at work. -/
abbrev Working := Traced Event ToolError

/-- A result and a text beside it. -/
abbrev Answer := Option Document × String

structure Handler where
  options : Options := {}
  /-- The name under which compilations are counted. -/
  backend : String := Interpreter.backend.name
  plotter : Plotter := {}

namespace Handler

/-- A handler with given compiler options. An empty name stands for the interpreter, and a sample
count that is not positive for the default. -/
def make (options : Options) (backend : String) (samples : Int) : Handler where
  options
  backend := if backend.isEmpty then Interpreter.backend.name else backend
  plotter := Plotter.withSamples { options } samples

def reading {α : Type} (r : Except ArgumentError α) : Working α :=
  Traced.ofExcept (r.mapError .argument)

/-- Sampling, with its fallbacks as events. -/
def sampling {α : Type} (r : Sampling.Sampled α) : Working α :=
  (r.mapTrace fun _ ↦ .fallback).mapError .ofHalt

/-- Compiles an expression and counts the attempt. -/
def compile (h : Handler) (params : Option (List String)) (e : Expr) : Working Function :=
  let o :=
    match params with
    | some names => h.options.withParams names
    | none => h.options
  let r := o.compileExpr e
  do
    Traced.emit (.compilation h.backend r.toBool)
    Traced.ofExcept (r.mapError .failure)

/-- A value as a number where it is a finite real, a truth value as such, and else its text. -/
def documentOf (v : Value) : Document :=
  match v with
  | .bool b => .bool b
  | v =>
    match v.real with
    | .ok x => if x.isFinite then .number x else .text v.text
    | .error _ => .text v.text

/-- The values of a function at the points of a list from position `i` on. -/
def valuesFrom (f : Function) (i : Nat) :
    List (List Float) → Except ToolError (List Document)
  | [] => .ok []
  | p :: ps => do
    let v ← (f.eval (p.map .float)).mapError (.atPoint i)
    let rest ← valuesFrom f (i + 1) ps
    return documentOf v :: rest

def compileTool (h : Handler) (p : Arguments) : Working Answer := do
  let e ← reading (p.expr "expr")
  let params ← if p.has "params" then some <$> reading (p.texts "params") else pure none
  let f ← h.compile params e
  let described := [
    ("params", if f.params.isEmpty then .absent else .texts f.params),
    ("target", .text f.expr.text),
    ("backend", .text f.backend)]
  if p.has "points" then
    let points ← reading (p.points "points")
    let values ← Traced.ofExcept (valuesFrom f 0 points)
    Traced.emit (.points points.length)
    return (some (.record (described ++ [("values", .list values)])), f.text)
  else return (some (.record described), f.text)

/-- A sample count from the arguments, within a limit. -/
def sampleCount (p : Arguments) (limit : Nat) : Working Nat := do
  let n ← reading (p.int "samples")
  if n ≤ 0 || limit < n then Traced.fail (.samples limit n)
  return n.toNat

/-- The plotter for a call, which may bring a sample count of its own. -/
def plotterFor (h : Handler) (p : Arguments) : Working Plotter := do
  if p.has "samples" then return { h.plotter with samples := ← sampleCount p 100000 }
  else return h.plotter

def seriesDocument (s : Sampling.Series) : Document :=
  .record [("label", .text s.label), ("x", .finites s.x), ("y", .finites s.y)]

def sample (h : Handler) (p : Arguments) : Working Answer := do
  let e ← reading (p.expr "expr")
  let (lo, hi) ← reading (p.interval "lo" "hi")
  let plotter ← plotterFor h p
  let s ← sampling (plotter.function (some e) lo hi)
  Traced.emit (.points s.x.length)
  return (some (seriesDocument s), s.label)

def parametric (h : Handler) (p : Arguments) : Working Answer := do
  let x ← reading (p.expr "x")
  let y ← reading (p.expr "y")
  let var ← reading (p.text "var")
  let (lo, hi) ← reading (p.interval "lo" "hi")
  let plotter ← plotterFor h p
  let s ← sampling (plotter.parametric (some x) (some y) var lo hi)
  Traced.emit (.points (2 * s.x.length))
  return (some (seriesDocument s), s.label)

def surface (h : Handler) (p : Arguments) : Working Answer := do
  let e ← reading (p.expr "expr")
  let x ← reading (p.text "x")
  let y ← reading (p.text "y")
  let xr ← reading (p.floats "x_range")
  let yr ← reading (p.floats "y_range")
  match xr, yr with
  | [x0, x1], [y0, y1] =>
    let n ← if p.has "samples" then sampleCount p 1000 else pure 20
    let g ← sampling (h.plotter.surface (some e) x y (linspace x0 x1 n) (linspace y0 y1 n) false)
    Traced.emit (.points (g.y.length * g.x.length))
    let z := .list (g.z.map .finites)
    return (some (.record [("x", .numbers g.x), ("y", .numbers g.y), ("z", z)]), g.label)
  | _, _ => Traced.fail .ranges

def freeSymbols (p : Arguments) : Working Answer := do
  let e ← reading (p.expr "expr")
  return (some (.texts e.freeSymbols), "")

def toText (p : Arguments) : Working Answer := do
  let e ← reading (p.expr "expr")
  let text := e.render
  let lowered := Lowering.lower .builtin Node.defaultMaxDepth (.symbolic (some e))
  let target :=
    match lowered with
    | .ok t => [("target", .text t.text)]
    | .error _ => []
  return (some (.record (("expr", .text text) :: target)), text)

def tables : Working Answer :=
  let constants := Constants.builtin.map fun e ↦ (e.1, .text e.2.text)
  let operators := Operators.builtin.map fun e ↦ (e.1, .text e.2)
  let functions := Table.sorted Registry.builtin
  pure (some (.record [
    ("constants", .record constants),
    ("operators", .record operators),
    ("functions", .texts (functions.map Prod.fst))]), "")

/-- The work of a tool. -/
def tool? (h : Handler) (name : String) : Option (Arguments → Working Answer) :=
  match name with
  | "lambdify" => some h.compileTool
  | "sample" => some h.sample
  | "parametric" => some h.parametric
  | "surface" => some h.surface
  | "free_symbols" => some freeSymbols
  | "to_string" => some toText
  | "tables" => some fun _ ↦ tables
  | "mcp_spec" => some fun _ ↦ pure (none, schemaText)
  | _ => none

/-- Runs the tool that a request asks for. -/
def work (h : Handler) (r : Request) : Working Answer :=
  match h.tool? r.tool with
  | some tool => tool r.arguments
  | none => Traced.fail (.unknownTool r.tool)

/-- The response to a request. The fault of a tool is reported as its error, but with the fault of a
task there is no response: the process ends. -/
def respond (id : String) : Except ToolError Answer → Except Fault Response
  | .ok (result, text) => .ok { id, result, text }
  | .error (.crash fault) => .error fault
  | .error e => .ok { id, error := e.report }

/-- Answers a request, and says what happened. A request without an id takes the fresh one. -/
def handle (h : Handler) (freshId : String) (r : Request) : Traced Event Fault Response :=
  let w := h.work r
  match respond (if r.id.isEmpty then freshId else r.id) w.outcome with
  | .ok response => ⟨.ok response, w.trace ++ [.toolCall r.tool response.error.isEmpty]⟩
  | .error fault => ⟨.error fault, w.trace⟩

end Handler

end ExprCompiler.Service
