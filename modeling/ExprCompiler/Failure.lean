import ExprCompiler.Value
import ExprCompiler.Text.Quoted

/-!
# Failures

Why a step did not give a result, as causes; `message` words them. A `Fault` is a step that has no
outcome at all: it stops whatever was under way, and only the compiler as a whole turns it into an
ordinary failure.
-/

namespace ExprCompiler

/-- Steps without an outcome. -/
inductive Fault where
  /-- Something absent was used: a tree, a function, or an invalid value as a number. -/
  | absent
  | index (i length : Nat)
  | zeroDenominator
  | zeroDenominatorInExpr
  | outOfDomain
  | counterDecrease
  /-- A foreign tree gave up with words of its own. -/
  | raised (text : String)
deriving DecidableEq, Repr

def Fault.message : Fault → String
  | .absent => "runtime error: invalid memory address or nil pointer dereference"
  | .index i length => s!"runtime error: index out of range [{i}] with length {length}"
  | .zeroDenominator => "lambdify: denominator is zero"
  | .zeroDenominatorInExpr => "cas: denominator is zero"
  | .outOfDomain => "cephes: parameter out of bounds"
  | .counterDecrease => "counter cannot decrease in value"
  | .raised text => text

/-- What a callable finds wrong with its arguments or its result. -/
inductive Complaint where
  | argumentCount (want got : Nat)
  | oneOrTwoArguments (got : Nat)
  | noArguments
  | complexArgument (v : Value)
  | negativeArgument (v : Value)
  | invalidResult
  | notReal (v : Value)

def Complaint.message : Complaint → String
  | .argumentCount want got => s!"expected {want} arguments, got {got}"
  | .oneOrTwoArguments got => s!"expected 1 or 2 arguments, got {got}"
  | .noArguments => "no arguments"
  | .complexArgument v => "complex argument " ++ v.text
  | .negativeArgument v => "negative argument " ++ v.text
  | .invalidResult => "returned an invalid value"
  | .notReal v => "result is not real: " ++ v.text

/-- Why a node of a foreign tree has no counterpart among target expressions. -/
inductive Unlowered where
  | tooDeep
  | absentNode
  | noFloat
  | noInteger
  | noRational
  | badFloat (text : String)
  | badInteger (text : String)
  | badRational (text : String)
  | notNative
  | zeroDenominator
  | badChildren (text : String)
  | noLeafRule
deriving DecidableEq, Repr

def Unlowered.message : Unlowered → String
  | .tooDeep => "expression nesting exceeds depth limit"
  | .absentNode => "nil node"
  | .noFloat => "node has no float payload"
  | .noInteger => "node has no integer payload"
  | .noRational => "node has no rational payload"
  | .badFloat text => "reading float payload: " ++ text
  | .badInteger text => "reading integer payload: " ++ text
  | .badRational text => "reading rational payload: " ++ text
  | .notNative => "numerator or denominator is not a native integer"
  | .zeroDenominator => "zero denominator"
  | .badChildren text => "reading children: " ++ text
  | .noLeafRule => "no rule for leaf"

/-- Why a target expression could not be built. -/
inductive Unbuilt where
  | absentExpression
  | duplicateParameter (name : String)
  | invalidLiteral
  | unsupported (type : String)
  | complexLiteral (v : Value)
  | notAPair (index : Nat)
  | pairOutside
  | unimplemented
  | argumentCount (got : Nat)
  | noArguments
  /-- A script that its engine cannot read. -/
  | unreadable
  /-- A backend failed for a reason of its own. -/
  | backend (name text : String)

def Unbuilt.message : Unbuilt → String
  | .absentExpression => "nil expression"
  | .duplicateParameter name => "duplicate parameter " ++ Text.quote name
  | .invalidLiteral => "invalid literal"
  | .unsupported type => "unsupported expression " ++ type
  | .complexLiteral v =>
    "complex literal " ++ v.text ++ " is not supported by the javascript backend"
  | .notAPair index => s!"argument {index} is not an (expression, condition) pair"
  | .pairOutside => "condition pair outside piecewise"
  | .unimplemented => "no native implementation"
  | .argumentCount got => s!"{got} arguments"
  | .noArguments => "no arguments"
  | .unreadable => "generated source does not compile"
  | .backend name text => name ++ " backend: " ++ text

/-- Why there is nothing to plot. -/
inductive Unplotted where
  | absentExpression
  | absentFunction
  | freeSymbols (text : String) (count : Nat)
  | emptyGrid
  | emptyArgument
  | lengths (n m : Nat)
  | canceled
deriving DecidableEq, Repr

def Unplotted.message : Unplotted → String
  | .absentExpression => "plot: nil expression"
  | .absentFunction => "plot: nil function"
  | .freeSymbols text count => "plot: " ++ text ++ s!" has {count} free symbols, want 1"
  | .emptyGrid => "plot: empty grid"
  | .emptyArgument => "plot: empty argument"
  | .lengths n m => s!"plot: cannot broadcast lengths {n} and {m}"
  | .canceled => "context canceled"

/-- Why lowering, building or calling did not succeed. -/
inductive Failure where
  | fault (f : Fault)
  | lowering (tag : String) (why : Unlowered)
  | building (name : String) (why : Unbuilt)
  | arity (want got : Nat)
  | unbound (name : String)
  | invalidArgument (index : Nat) (parameter : String)
  | callable (name : String) (why : Complaint)
  | notReal (v : Value)
  | plotting (why : Unplotted)
  /-- An error with words from outside the library. -/
  | reported (text : String)
  /-- The compiler as a whole failed; the cause lives on only as text. -/
  | notCompilable (cause : Failure)

namespace Failure

def message : Failure → String
  | .fault f => f.message
  | .lowering tag why => "cannot translate " ++ Text.quote tag ++ ": " ++ why.message
  | .building name why =>
    let subject := if name.isEmpty then "" else " " ++ Text.quote name
    "cannot compile" ++ subject ++ ": " ++ why.message
  | .arity want got => s!"expected {want} arguments, got {got}"
  | .unbound name => "variable " ++ Text.quote name ++ " is not bound to a parameter"
  | .invalidArgument index parameter => s!"argument {index} ({parameter}): invalid value"
  | .callable name why => name ++ ": " ++ why.message
  | .notReal v => "result is not real: " ++ v.text
  | .plotting why => why.message
  | .reported text => text
  | .notCompilable cause =>
    match cause with
    | .fault f => "not lambdifiable: panic: " ++ f.message
    | cause => "not lambdifiable: " ++ cause.message

end Failure

/-- A quotient of integers as a value. -/
def Value.ratio (p q : Int) : Except Fault Value :=
  if q == 0 then .error .zeroDenominator else .ok (.rational (Rat.divInt p q))

/-- A callable's own complaint. -/
def complain {α : Type} (name : String) (why : Complaint) : Except Failure α :=
  .error (.callable name why)

end ExprCompiler
