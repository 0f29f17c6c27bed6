import ExprCompiler.Sampling.Span

/-!
# Curves and surfaces

What sampling gives. A point where evaluation failed holds NaN.
-/

namespace ExprCompiler.Sampling

structure Series where
  label : String
  x : List Float
  y : List Float

/-- A sampled surface, with a row for every `y` and a column for every `x`. -/
structure Surface where
  label : String
  x : List Float
  y : List Float
  z : List (List Float)

/-- The first of the least and the first of the greatest among finite values. -/
def bounds (ys : List Float) : Option (Float × Float) :=
  match ys.filter Float.isFinite with
  | [] => none
  | y :: rest =>
    some (rest.foldl (fun m v ↦ if v < m then v else m) y,
      rest.foldl (fun m v ↦ if m < v then v else m) y)

/-- The extent of the finite values of a curve. -/
def Series.bounds (s : Series) : Option (Float × Float) := Sampling.bounds s.y

end ExprCompiler.Sampling
