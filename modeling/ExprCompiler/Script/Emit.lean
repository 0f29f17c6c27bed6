import ExprCompiler.Script.Syntax

/-!
# Emitting scripts

From target expressions to the text of a script. Operators and the functions that scripts have are
written as such; other callables become calls back into the registry, and have to be there. Every
operand is a name, a call or a group, so that no operator can take hold of a part of it.
-/

namespace ExprCompiler.Script

/-! ## Pieces of text -/

def grouped (s : String) : String := "(" ++ s ++ ")"

/-- Operands with an operator between them, as a group. -/
def chained (op : Operator) (ss : List String) : String :=
  grouped ((" " ++ op.symbol ++ " ").intercalate ss)

def applied (f : String) (ss : List String) : String := f ++ grouped (", ".intercalate ss)

/-- The condition that holds for every number but zero, NaN included. -/
def truthText (s : String) : String := chained .different [applied "Number" [s], "0"]

/-- A choice between a value and what is left, as a group. -/
def branchText (value condition rest : String) : String :=
  grouped (truthText condition ++ " ? " ++ value ++ " : " ++ rest)

/-- Values with their conditions, tried in order; if no condition holds there is only NaN. -/
def branchesText (pieces : List (String × String)) : String :=
  pieces.foldr (fun p rest ↦ branchText p.1 p.2 rest) "NaN"

def parameterName (i : Nat) : String := "p" ++ toString i

/-- The script: a function of so many parameters that gives back what its body comes to. -/
def source (count : Nat) (body : String) : String :=
  let formals := ", ".intercalate ((List.range count).map parameterName)
  "(function(" ++ formals ++ ") \x7b\n\t\"use strict\";\n\treturn " ++ body ++ ";\n\x7d)"

/-! ## Literals -/

def floatText (x : Float) : String :=
  if x.isNaN then "NaN"
  else if x.isInf then if x < 0 then "(-Infinity)" else "Infinity"
  else grouped (Numeral.general x)

/-- The text of a literal. Exact numbers become quotients of doubles. -/
def emitLiteral (v : Value) : Except Failure String :=
  match v with
  | .bool b => .ok (toString b)
  | .rational q =>
    if q.den == 1 then .ok (grouped (toString q.num))
    else .ok (chained (.chain .divide) [toString q.num, toString q.den])
  | .float x => .ok (floatText x)
  | .complex _ => .error (.building "" (.complexLiteral v))
  | .invalid => .error (.building "" .invalidLiteral)

/-! ## Expressions -/

def counted {α : Type} (name : String) (ss : List String) : Except Failure α :=
  .error (.building name (.argumentCount ss.length))

/-- The text of an application of what scripts chain, have a function for, or call back. -/
def emitNamed (r : Registry) (name : String) (ss : List String) : Except Failure String :=
  match chain? name with
  | some op =>
    match ss with
    | [] => .error (.building name .noArguments)
    | ss => .ok (chained (.chain op) ss)
  | none =>
    match mathFunctions.get? name with
    | some _ => .ok (applied (functionName name) ss)
    | none =>
      match r.find? name with
      | none => .error (.building name .unimplemented)
      | some _ => .ok (applied "__call" (Text.quoteAscii name :: ss))

/-- The text of an application whose arguments have been emitted. -/
def emitCall (r : Registry) (name : String) (ss : List String) : Except Failure String :=
  match name, ss with
  | "pair", _ => .error (.building "pair" .pairOutside)
  | "-", [s] => .ok (grouped ("-" ++ s))
  | "-", [a, b] => .ok (chained .minus [a, b])
  | "-", ss => counted name ss
  | "!", [s] => .ok (grouped ("!" ++ truthText s))
  | "!", ss => counted name ss
  | "==", [a, b] => .ok (chained .same [applied "Number" [a], applied "Number" [b]])
  | "!=", [a, b] => .ok (chained .different [applied "Number" [a], applied "Number" [b]])
  | "==", ss => counted name ss
  | "!=", ss => counted name ss
  | "&", [] => .ok "true"
  | "&", ss => .ok (chained .and (ss.map truthText))
  | "|", [] => .ok "false"
  | "|", ss => .ok (chained .or (ss.map truthText))
  | "identity", [s] => .ok (grouped s)
  | "real", [s] => .ok (grouped s)
  | "conj", [s] => .ok (grouped s)
  | "identity", ss => counted name ss
  | "real", ss => counted name ss
  | "conj", ss => counted name ss
  | "log", [s] => .ok (applied "Math.log" [s])
  | name, ss => emitNamed r name ss

mutual

/-- Emits a target expression, arguments before the application around them. -/
def emit (params : List String) (r : Registry) : Target → Except Failure String
  | .var name =>
    match params.idxOf? name with
    | some i => .ok (parameterName i)
    | none => .ok (applied "__unbound" [Text.quoteAscii name])
  | .lit v => emitLiteral v
  | .call name args =>
    if name == "piecewise" then do return branchesText (← emitPieces params r 0 args)
    else do emitCall r name (← emitAll params r args)
  | .foreign type _ => .error (.building "" (.unsupported type))
  | .absent => .error (.building "" (.unsupported "<nil>"))

def emitAll (params : List String) (r : Registry) : List Target → Except Failure (List String)
  | [] => .ok []
  | t :: ts => do
    let s ← emit params r t
    let ss ← emitAll params r ts
    return s :: ss

def emitPieces (params : List String) (r : Registry) (i : Nat) :
    List Target → Except Failure (List (String × String))
  | [] => .ok []
  | .call name [value, condition] :: rest => do
    if name != "pair" then throw (.building "piecewise" (.notAPair i))
    let v ← emit params r value
    let c ← emit params r condition
    let ps ← emitPieces params r (i + 1) rest
    return (v, c) :: ps
  | _ :: _ => .error (.building "piecewise" (.notAPair i))

end

end ExprCompiler.Script
