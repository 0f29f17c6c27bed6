import ExprCompiler.Expr.Basic

/-!
# The text of an expression

Sums inside products are bracketed; so are sums, products and powers on either side of a power,
and exponents that are fractions or negative. Other nestings are written as they come.
-/

namespace ExprCompiler.Expr

def bracket (s : String) : String := "(" ++ s ++ ")"

def isSum : Expr → Bool
  | .add _ => true
  | _ => false

/-- Whether a node is a sum, a product or a power. -/
def isArithmetic : Expr → Bool
  | .add _ | .mul _ | .pow _ _ => true
  | _ => false

/-- Whether an exponent needs brackets. -/
def bracketedExponent (e : Expr) : Bool :=
  match e with
  | .num q => q.den != 1 || q < 0
  | _ => e.isArithmetic

mutual

def render : Expr → String
  | .num q => Numeral.ratText q
  | .float x => Numeral.general x
  | .sym name => name
  | .add [] => "0"
  | .add terms => " + ".intercalate (renderAll terms)
  | .mul [] => "1"
  | .mul factors => "*".intercalate (renderFactors factors)
  | .pow base exponent =>
    let b := render base
    let e := render exponent
    (if base.isArithmetic then bracket b else b) ++ "^"
      ++ (if exponent.bracketedExponent then bracket e else e)
  | .func name args => name ++ bracket (", ".intercalate (renderAll args))
  | .const c => c.display
  | .rel op lhs rhs => render lhs ++ " " ++ op.symbol ++ " " ++ render rhs
  | .piecewise pieces => "Piecewise" ++ bracket (", ".intercalate (renderPieces pieces))
  | .pair value condition => bracket (render value ++ ", " ++ render condition)
  | .atom _ name => name

def renderAll : List Expr → List String
  | [] => []
  | e :: es => render e :: renderAll es

def renderFactors : List Expr → List String
  | [] => []
  | e :: es => (if e.isSum then bracket (render e) else render e) :: renderFactors es

def renderPieces : List (Expr × Expr) → List String
  | [] => []
  | (e, c) :: ps => bracket (render e ++ ", " ++ render c) :: renderPieces ps

end

end ExprCompiler.Expr
