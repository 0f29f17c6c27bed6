import ExprCompiler.Sampling.Plotter

/-!
# Broadcasting

A function applied element by element. Columns have one common length; a column of one element
stands for as many copies of it as are needed.
-/

namespace ExprCompiler.Sampling

/-- The common length of columns, given the one found so far. -/
def commonLength (n : Nat) : List (List Float) → Except Failure Nat
  | [] => .ok n
  | a :: rest =>
    if a.isEmpty then .error (.plotting .emptyArgument)
    else if a.length == 1 || a.length == n then commonLength n rest
    else if n == 1 then commonLength a.length rest
    else .error (.plotting (.lengths n a.length))

/-- The element of a column at a position, or its only one. -/
def elementAt (i : Nat) (a : List Float) : Float :=
  match a with
  | [x] => x
  | a => (a[i]?).getD Elementary.nan

/-- Applies a function to columns, one for each parameter. -/
def broadcast (f? : Option Function) (columns : List (List Float)) :
    Except Failure (List Float) := do
  match f? with
  | none => throw (.plotting .absentFunction)
  | some f =>
    if columns.length != f.params.length then
      throw (.arity f.params.length columns.length)
    let n ← commonLength 1 columns
    (List.range n).mapM fun i ↦ point f.call (columns.map (elementAt i))

end ExprCompiler.Sampling
