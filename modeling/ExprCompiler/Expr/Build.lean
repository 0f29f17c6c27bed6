import ExprCompiler.Expr.Render

/-!
# Building expressions

The constructors bring expressions into a normal form as they build: sums and products are
flattened, numbers are folded, repeated symbols of a sum are collected, factors are put in the
order of their text, and a few exact identities of functions are applied.
-/

namespace ExprCompiler.Expr

/-! ## Products -/

/-- The factors that a factor contributes. -/
def factorsOf : Expr → List Expr
  | .mul factors => factors
  | e => [e]

/-- The product of the exact numbers of a list. -/
def exactProduct (es : List Expr) : Rat :=
  es.foldl (fun acc e ↦ match e with
    | .num q => acc * q
    | _ => acc) 1

/-- The product of the inexact numbers of a list; `none` if there are none. -/
def inexactProduct (es : List Expr) : Option Float :=
  es.foldl (fun acc e ↦ match e with
    | .float x => some (acc.getD 1 * x)
    | _ => acc) none

def isNumber : Expr → Bool
  | .num _ | .float _ => true
  | _ => false

/-- Puts expressions in the order of their text, keeping the order of equals. -/
def sortByText (es : List Expr) : List Expr :=
  ((es.map fun e ↦ (e.render, e)).mergeSort fun a b ↦ decide (a.1 ≤ b.1)).map Prod.snd

/-- A product of leading number and other factors. -/
def assembleProduct (lead : Option Expr) (others : List Expr) : Expr :=
  match lead, sortByText others with
  | none, [e] => e
  | none, es => .mul es
  | some c, es => .mul (c :: es)

/-- The product. An exact zero makes it zero; an inexact factor makes the number inexact. -/
def mulOf (factors : List Expr) : Expr :=
  let flat := factors.flatMap factorsOf
  let exact := exactProduct flat
  let others := flat.filter fun e ↦ !e.isNumber
  if exact == 0 then .num 0
  else
    match inexactProduct flat with
    | some x =>
      let lead := .float (x * Numeral.nearest exact)
      if others.isEmpty then lead else assembleProduct (some lead) others
    | none =>
      if others.isEmpty then .num exact
      else if exact == 1 then assembleProduct none others
      else assembleProduct (some (.num exact)) others

/-! ## Sums -/

/-- The terms that a term contributes. -/
def termsOf : Expr → List Expr
  | .add terms => terms
  | e => [e]

def exactSum (es : List Expr) : Rat :=
  es.foldl (fun acc e ↦ match e with
    | .num q => acc + q
    | _ => acc) 0

def inexactSum (es : List Expr) : Option Float :=
  es.foldl (fun acc e ↦ match e with
    | .float x => some (acc.getD 0 + x)
    | _ => acc) none

def symbolName? : Expr → Option String
  | .sym name => some name
  | _ => none

/-- A symbol as often as it occurs. -/
def repeated (names : List String) (name : String) : Expr :=
  let k := names.count name
  if k == 1 then .sym name else mulOf [.num k, .sym name]

/-- The number at the end of a sum, unless it is zero. -/
def trailing (inexact : Option Float) (exact : Rat) : List Expr :=
  match inexact with
  | some x =>
    let sum := x + Numeral.nearest exact
    if sum == 0 then [] else [.float sum]
  | none => if exact == 0 then [] else [.num exact]

/-- The sum: symbols by name with their multiplicity, then the other terms in order, then the
number. -/
def addOf (terms : List Expr) : Expr :=
  let flat := terms.flatMap termsOf
  let names := flat.filterMap symbolName?
  let symbols := (sortNames names).map (repeated names)
  let others := flat.filter fun e ↦ !e.isNumber && e.symbolName?.isNone
  let inexact := inexactSum flat
  match symbols ++ others ++ trailing inexact (exactSum flat) with
  | [] => if inexact.isSome then .float 0 else .num 0
  | [e] => e
  | es => .add es

/-! ## Powers -/

/-- The low 64 bits of the magnitude as a signed word, with the sign of the integer. -/
def lowWord (n : Int) : Int :=
  let w := Numeral.lowBits n.natAbs
  if n < 0 then Numeral.lowBits (-w) else w

/-- `q^e` for a small integer exponent. -/
def ratPower (q : Rat) (e : Int) : Rat :=
  let p := (List.replicate e.natAbs q).foldl (· * ·) 1
  if e < 0 then 1 / p else p

/-- The power. Exact bases fold under integer exponents whose low word is at most twenty in
magnitude, and a power of a power multiplies the exponents if the outer one is exact. -/
def powOf (base exponent : Expr) : Expr :=
  match exponent with
  | .num e =>
    if e == 0 then .num 1
    else if e == 1 then base
    else
      match base with
      | .num b =>
        if b == 0 then (if e < 0 then .pow base exponent else .num 0)
        else if b == 1 then .num 1
        else
          let w := lowWord e.num
          if e.den == 1 && -20 ≤ w && w ≤ 20 then .num (ratPower b w) else .pow base exponent
      | .pow b inner => powOf b (mulOf [inner, exponent])
      | _ => .pow base exponent
  | _ =>
    match base with
    | .num b => if b == 0 then .num 0 else if b == 1 then .num 1 else .pow base exponent
    | _ => .pow base exponent

/-! ## Applications -/

/-- Functions that vanish at zero. -/
def oddFunctions : List String := ["sin", "tan", "asin", "atan", "sinh", "tanh"]

/-- Functions that are one at zero. -/
def evenFunctions : List String := ["cos", "cosh"]

/-- What an application to one argument is exactly equal to, if the kernel knows. The logarithm of
an exponential takes the first argument of the exponential, which may have none. -/
def identity? (name : String) (arg : Expr) : Except Fault (Option Expr) :=
  match arg with
  | .num q =>
    .ok <|
      if oddFunctions.contains name then (if q == 0 then some (.num 0) else none)
      else if evenFunctions.contains name then (if q == 0 then some (.num 1) else none)
      else if name == "log" then (if q == 1 then some (.num 0) else none)
      else if name == "exp" then (if q == 0 then some (.num 1) else none)
      else if name == "Abs" then some (.num q.abs)
      else none
  | .func inner args =>
    if name == "log" && inner == "exp" then
      match args with
      | [] => .error (.index 0 0)
      | a :: _ => .ok (some a)
    else if name == "exp" && inner == "log" then
      match args with
      | [a] => .ok (some a)
      | _ => .ok none
    else .ok none
  | _ => .ok none

/-- The application of a named function. -/
def funcOf (name : String) (args : List Expr) : Except Fault Expr :=
  match args with
  | [arg] => do return (← identity? name arg).getD (.func name args)
  | _ => .ok (.func name args)

def sqrtOf (e : Expr) : Expr := powOf e (.num (1 / 2))

/-- A quotient of integers. -/
def ratio (p q : Int) : Except Fault Expr :=
  if q == 0 then .error .zeroDenominatorInExpr else .ok (.num (Rat.divInt p q))

/-- The child at a position. -/
def arg (e : Expr) (i : Nat) : Except Fault Expr :=
  match e.args[i]? with
  | some a => .ok a
  | none => .error (.index i e.args.length)

/-! ## Substitution -/

mutual

/-- Puts `value` for every occurrence of a symbol and builds the tree anew. A branch that stands
alone is left as it is. -/
def subst (name : String) (value : Expr) : Expr → Except Fault Expr
  | .sym s => .ok (if s == name then value else .sym s)
  | .add terms => do return addOf (← substAll name value terms)
  | .mul factors => do return mulOf (← substAll name value factors)
  | .pow base exponent => do
    let b ← subst name value base
    let e ← subst name value exponent
    return powOf b e
  | .func f args => do funcOf f (← substAll name value args)
  | .rel op lhs rhs => do
    let l ← subst name value lhs
    let r ← subst name value rhs
    return .rel op l r
  | .piecewise pieces => do return .piecewise (← substPieces name value pieces)
  | e => .ok e

def substAll (name : String) (value : Expr) : List Expr → Except Fault (List Expr)
  | [] => .ok []
  | e :: es => do
    let e ← subst name value e
    let es ← substAll name value es
    return e :: es

def substPieces (name : String) (value : Expr) :
    List (Expr × Expr) → Except Fault (List (Expr × Expr))
  | [] => .ok []
  | (e, c) :: ps => do
    let e ← subst name value e
    let c ← subst name value c
    let ps ← substPieces name value ps
    return (e, c) :: ps

end

/-- The names in a list separated by blanks and commas. -/
def symbolNames (text : String) : List String :=
  (text.splitToList fun c ↦ c == ' ' || c == ',').filter fun s ↦ !s.isEmpty

end ExprCompiler.Expr
