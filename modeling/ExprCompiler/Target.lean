import ExprCompiler.Failure

/-!
# Target expressions

What backends build from: variables, literals and applications of callables. A target expression
holds nothing of the tree that it came from.
-/

namespace ExprCompiler

inductive Target where
  | var (name : String)
  | lit (v : Value)
  | call (callable : String) (args : List Target)
  /-- An expression of a type that no backend of this library knows. -/
  | foreign (type text : String)
  /-- The place of an expression that is not there. -/
  | absent

namespace Target

instance : Inhabited Target := ⟨.absent⟩

/-- Callables that are written between their arguments. -/
def infixCallables : List String :=
  ["+", "-", "*", "/", "^", "==", "!=", "<", "<=", ">", ">=", "&", "|"]

mutual

def text : Target → String
  | .var name => name
  | .lit v => v.text
  | .call callable args =>
    let parts := textAll args
    if 1 < parts.length && infixCallables.contains callable then
      "(" ++ (" " ++ callable ++ " ").intercalate parts ++ ")"
    else callable ++ "(" ++ ", ".intercalate parts ++ ")"
  | .foreign _ text => text
  | .absent => "<nil>"

def textAll : List Target → List String
  | [] => []
  | t :: ts => text t :: textAll ts

end

mutual

/-- Whether no expression is missing inside. -/
def isComplete : Target → Bool
  | .call _ args => allComplete args
  | .absent => false
  | _ => true

def allComplete : List Target → Bool
  | [] => true
  | t :: ts => isComplete t && allComplete ts

end

/-- The text of an expression; one with a part missing has none. -/
def render (t : Target) : Except Fault String :=
  if t.isComplete then .ok t.text else .error .absent

mutual

/-- The variables in order, with repetitions. -/
def vars : Target → List String
  | .var name => [name]
  | .call _ args => varsAll args
  | _ => []

def varsAll : List Target → List String
  | [] => []
  | t :: ts => vars t ++ varsAll ts

end

/-- The distinct elements in the order of their first occurrence. -/
def firstOccurrences (names : List String) : List String :=
  (names.foldl (fun acc n ↦ if acc.contains n then acc else n :: acc) []).reverse

/-- The variables in the order of their first occurrence. -/
def freeVars (t : Target) : List String := firstOccurrences t.vars

end Target

end ExprCompiler
