import ExprCompiler.Script.Emit
import ExprCompiler.Script.Reader

/-!
# Running scripts

A script computes with doubles and truth values alone; in arithmetic a truth value counts as one
or zero. Arguments are evaluated from left to right, and an argument that is lacking is a NaN. The
backend writes a script for an expression, has it read, and runs what was read.
-/

namespace ExprCompiler.Script

/-- What a script computes with. -/
inductive Datum where
  | number (x : Float)
  | bool (b : Bool)

namespace Datum

def toNumber : Datum → Float
  | .number x => x
  | .bool b => if b then 1 else 0

/-- Every number but zero holds, NaN included. -/
def truth (d : Datum) : Bool := d.toNumber != 0

/-- What counts as true where a script branches: NaN does not. -/
def toBool : Datum → Bool
  | .number x => !(x == 0) && !x.isNaN
  | .bool b => b

/-- Whether two data are the same, which a number and a truth value never are. -/
def same : Datum → Datum → Bool
  | .number x, .number y => x == y
  | .bool b, .bool c => b == c
  | _, _ => false

def toValue : Datum → Value
  | .number x => .float x
  | .bool b => .bool b

end Datum

/-- One step of a chain. -/
def Chain.step (op : Chain) (a b : Datum) : Datum :=
  let x := a.toNumber
  let y := b.toNumber
  match op with
  | .plus => .number (x + y)
  | .times => .number (product x y)
  | .divide => .number (x / y)
  | .lt => .bool (x < y)
  | .le => .bool (x ≤ y)
  | .gt => .bool (y < x)
  | .ge => .bool (y ≤ x)

def Math.apply (f : Math) (ds : List Datum) : Datum :=
  let arg (i : Nat) : Datum := (ds[i]?).getD (.number Elementary.nan)
  match f with
  | .sign =>
    let x := (arg 0).toNumber
    if 0 < x then .number 1 else if x < 0 then .number (-1) else arg 0
  | .unary f => .number (f (arg 0).toNumber)
  | .binary f => .number (f (arg 0).toNumber (arg 1).toNumber)
  | .fold start f => .number ((ds.map Datum.toNumber).foldl f start)

/-- Calls the registry under a name, which may not be there. A result that is neither a truth value
nor real is refused. -/
def callNamed (r : Registry) (name : String) (ds : List Datum) : Except Failure Datum := do
  match r.find? name with
  | none => throw (.fault .absent)
  | some f =>
    let v ← f (ds.map Datum.toValue)
    match v with
    | .bool b => return .bool b
    | v =>
      match v.real with
      | .ok x => return .number x
      | .error _ => complain name (.notReal v)

def Callee.call (r : Registry) (f : Callee) (ds : List Datum) : Except Failure Datum :=
  match f with
  | .toNumber => .ok (.number ((ds.head?.map Datum.toNumber).getD 0))
  | .math f => .ok (f.apply ds)
  | .registry name => callNamed r name ds
  | .unbound name => .error (.unbound name)

/-- Whether the first operand alone decides. -/
def Operator.decides (op : Operator) (a : Datum) : Bool :=
  match op with
  | .or => a.toBool
  | .and => !a.toBool
  | _ => false

/-- What an operator makes of two operands if the first does not decide. -/
def Operator.apply (op : Operator) (a b : Datum) : Datum :=
  match op with
  | .or | .and => b
  | .same => .bool (a.same b)
  | .different => .bool !a.same b
  | .minus => .number (a.toNumber - b.toNumber)
  | .chain op => op.step a b

mutual

def run (r : Registry) (env : List Float) : Term → Except Failure Datum
  | .param i => .ok (.number ((env[i]?).getD Elementary.nan))
  | .bool b => .ok (.bool b)
  | .number x => .ok (.number x)
  | .neg t => do return .number (-(← run r env t).toNumber)
  | .not t => do return .bool !(← run r env t).toBool
  | .binary op a b => do
    let x ← run r env a
    if op.decides x then return x
    return op.apply x (← run r env b)
  | .choice condition value otherwise => do
    if (← run r env condition).toBool then run r env value else run r env otherwise
  | .call f ts => do f.call r (← runAll r env ts)

def runAll (r : Registry) (env : List Float) : List Term → Except Failure (List Datum)
  | [] => .ok []
  | t :: ts => do
    let d ← run r env t
    let ds ← runAll r env ts
    return d :: ds

end

/-- The name under which the backend is known. -/
def backendName : String := "javascript"

/-- The arguments as doubles; a complex one is refused. -/
def realArguments (args : List Value) : Except Failure (List Float) :=
  args.mapM fun a ↦
    match a.toFloat with
    | (x, true) => .ok x
    | (_, false) => complain backendName (.complexArgument a)

def backend : Backend where
  name := backendName
  build t params r := do
    let body ← emit params r t
    match read? (source params.length body) with
    | none => throw (.building "" .unreadable)
    | some term => return fun args ↦ do return (← run r (← realArguments args) term).toValue

end ExprCompiler.Script
