import ExprCompiler.Expr.Wire
import ExprCompiler.Json.Lenient

/-!
# Arguments of tools

Typed access to the parameters of a request. Scalars are read leniently; expressions travel in
their wire format.
-/

namespace ExprCompiler.Service

/-- The parameters of a request; of two with one name the last counts. -/
abbrev Arguments := List (String × Json)

inductive ArgumentError where
  | missing (name : String)
  | notExpression (name : String)
  | wire (name : String) (cause : WireError)
  | notText (name : String)
  | notTexts (name : String)
  | notNumber (name : String)
  | notInteger (name : String)
  | notNumbers (name : String)
  | notArray (name : String)
  | emptyInterval (lo hi : Float)

def ArgumentError.message : ArgumentError → String
  | .missing name => "missing param: " ++ name
  | .notExpression name => "param " ++ name ++ " must be an expression object"
  | .wire name cause => "param " ++ name ++ ": " ++ cause.message
  | .notText name => "param " ++ name ++ " must be a non-empty string"
  | .notTexts name => "param " ++ name ++ " must be an array of strings"
  | .notNumber name => "param " ++ name ++ " must be a number"
  | .notInteger name => "param " ++ name ++ " must be an integer"
  | .notNumbers name => "param " ++ name ++ " must be an array of numbers"
  | .notArray name => "param " ++ name ++ " must be an array"
  | .emptyInterval lo hi =>
    "empty interval [" ++ Numeral.general lo ++ ", " ++ Numeral.general hi ++ "]"

/-- The name of an item of a list. -/
def itemName (name : String) (i : Nat) : String := name ++ "[" ++ toString i ++ "]"

namespace Arguments

def has (p : Arguments) (name : String) : Bool := (Json.lastField? name p).isSome

def get (p : Arguments) (name : String) : Except ArgumentError Json :=
  match Json.lastField? name p with
  | some j => .ok j
  | none => .error (.missing name)

def expr (p : Arguments) (name : String) : Except ArgumentError Expr := do
  match ← p.get name with
  | .object fields => (Expr.ofJson (.object fields)).mapError (.wire name)
  | _ => throw (.notExpression name)

def text (p : Arguments) (name : String) : Except ArgumentError String := do
  match (← p.get name).toText? with
  | some s => if s.isEmpty then throw (.notText name) else return s
  | none => throw (.notText name)

/-- A list of texts; an item that is none becomes the empty text. -/
def texts (p : Arguments) (name : String) : Except ArgumentError (List String) := do
  match ← p.get name with
  | .array items => return items.map fun j ↦ (j.toText?).getD ""
  | _ => throw (.notTexts name)

def float (p : Arguments) (name : String) : Except ArgumentError Float := do
  match (← p.get name).toFloat? with
  | some x => return x
  | none => throw (.notNumber name)

def int (p : Arguments) (name : String) : Except ArgumentError Int := do
  match (← p.get name).toInt? with
  | some n => return n
  | none => throw (.notInteger name)

/-- The numbers of a list from position `i` on. -/
def floatsFrom (name : String) (i : Nat) : List Json → Except ArgumentError (List Float)
  | [] => .ok []
  | j :: js => do
    match j.toFloat? with
    | some x => return x :: (← floatsFrom name (i + 1) js)
    | none => throw (.notNumber (itemName name i))

def floatsOf (name : String) : Json → Except ArgumentError (List Float)
  | .array items => floatsFrom name 0 items
  | _ => .error (.notNumbers name)

def floats (p : Arguments) (name : String) : Except ArgumentError (List Float) := do
  floatsOf name (← p.get name)

/-- Two bounds, the first below the second. -/
def interval (p : Arguments) (lo hi : String) : Except ArgumentError (Float × Float) := do
  let a ← p.float lo
  let b ← p.float hi
  if a < b then return (a, b) else throw (.emptyInterval a b)

/-- The points of a list from position `i` on. -/
def pointsFrom (name : String) (i : Nat) : List Json → Except ArgumentError (List (List Float))
  | [] => .ok []
  | j :: js => do
    let xs ← floatsOf (itemName name i) j
    let rest ← pointsFrom name (i + 1) js
    return xs :: rest

/-- A list of lists of numbers. -/
def points (p : Arguments) (name : String) : Except ArgumentError (List (List Float)) := do
  match ← p.get name with
  | .array items => pointsFrom name 0 items
  | _ => throw (.notArray name)

end Arguments

end ExprCompiler.Service
