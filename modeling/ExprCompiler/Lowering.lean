import ExprCompiler.Node
import ExprCompiler.Tables
import ExprCompiler.Target

/-!
# Lowering

From a foreign tree to a target expression. Symbols and the three kinds of number are known by
their tags; a leaf may have an entry among the constants; every other node with children becomes
an application of the callable that its tag names.
-/

namespace ExprCompiler.Lowering

/-- The two tables that lowering reads. -/
structure Rules where
  constants : Constants
  operators : Operators

def Rules.builtin : Rules := ⟨.builtin, .builtin⟩

/-- What a node is lowered as, going by its tag. -/
inductive Form where
  | symbol
  | integer
  | float
  | rational
  | constant (v : Value)
  | application

/-- The named leaves come first, then the constants, then everything else. -/
def Rules.form (r : Rules) (tag : String) : Form :=
  if tag == "Symbol" then .symbol
  else if tag == "Integer" then .integer
  else if tag == "Float" then .float
  else if tag == "Rational" then .rational
  else
    match r.constants.get? tag with
    | some v => .constant v
    | none => .application

/-- An integer is exact if the node gives it as one; a double stands in for it otherwise. Unlike the
parts of a rational, it is used without a look at whether it is there. -/
def integer (n : Node) (tag : String) : Except Failure Target :=
  match n.integer with
  | .value (some i) => .ok (.lit (.int i))
  | .value none => Node.missing
  | .error text => .error (.lowering tag (.badInteger text))
  | .lacking =>
    match n.float with
    | .value x => .ok (.lit (.float x))
    | .error text => .error (.lowering tag (.badInteger text))
    | .lacking => .error (.lowering tag .noInteger)

def float (n : Node) (tag : String) : Except Failure Target :=
  match n.float with
  | .value x => .ok (.lit (.float x))
  | .error text => .error (.lowering tag (.badFloat text))
  | .lacking => .error (.lowering tag .noFloat)

/-- Both parts of a rational have to be there and to fit a word. -/
def rational (n : Node) (tag : String) : Except Failure Target :=
  match n.ratio with
  | .value (some p, some q) =>
    if !(Numeral.isWord p && Numeral.isWord q) then .error (.lowering tag .notNative)
    else if q == 0 then .error (.lowering tag .zeroDenominator)
    else .ok (.lit (.rational (Rat.divInt p q)))
  | .value _ => .error (.lowering tag .notNative)
  | .error text => .error (.lowering tag (.badRational text))
  | .lacking => .error (.lowering tag .noRational)

/-- Lowers a node; `left` counts the levels that may still be entered. -/
def lowerWithin (r : Rules) : Nat → Node → Except Failure Target
  | 0, n => do throw (.lowering (← n.tag) .tooDeep)
  | left + 1, n => do
    let tag ← n.tag
    match r.form tag with
    | .symbol => return .var (← n.text)
    | .integer => integer n tag
    | .float => float n tag
    | .rational => rational n tag
    | .constant v => return .lit v
    | .application =>
      let (ns, error) ← n.children
      if let some text := error then throw (.lowering tag (.badChildren text))
      if ns.isEmpty then throw (.lowering tag .noLeafRule)
      return .call (r.operators.resolve tag) (← ns.mapM (lowerWithin r left))

/-- Lowers a tree that may be nested `maxDepth` deep. -/
def lower (r : Rules) (maxDepth : Nat) (n : Node) : Except Failure Target :=
  lowerWithin r (maxDepth + 1) n

end ExprCompiler.Lowering
