import ExprCompiler.Failure
import ExprCompiler.Elementary.Special

/-!
# Symbolic expressions

The trees that the compiler starts from: exact and inexact numbers, symbols, sums, products,
powers, applications, constants, relations, branches and atoms. Every node has a tag, which names
its kind, and ordered children.
-/

namespace ExprCompiler

/-- The six ways to compare two expressions. -/
inductive Relation where
  | eq
  | ne
  | lt
  | le
  | gt
  | ge
deriving DecidableEq, Repr

namespace Relation

def all : List Relation := [.eq, .ne, .lt, .le, .gt, .ge]

def tag : Relation → String
  | .eq => "Equality"
  | .ne => "Unequality"
  | .lt => "StrictLessThan"
  | .le => "LessThan"
  | .gt => "StrictGreaterThan"
  | .ge => "GreaterThan"

def symbol : Relation → String
  | .eq => "=="
  | .ne => "!="
  | .lt => "<"
  | .le => "<="
  | .gt => ">"
  | .ge => ">="

def ofTag? (tag : String) : Option Relation := all.find? fun r ↦ r.tag == tag

def holds (r : Relation) (a b : Float) : Bool :=
  match r with
  | .eq => a == b
  | .ne => a != b
  | .lt => a < b
  | .le => a ≤ b
  | .gt => b < a
  | .ge => b ≤ a

end Relation

/-- Named constants. -/
inductive Constant where
  | pi
  | e
  | i
  | infinity
  | negInfinity
  | complexInfinity
  | nan
  | eulerGamma
  | goldenRatio
  | true
  | false
deriving DecidableEq, Repr

namespace Constant

def all : List Constant :=
  [.pi, .e, .i, .infinity, .negInfinity, .complexInfinity, .nan, .eulerGamma, .goldenRatio, .true,
   .false]

def tag : Constant → String
  | .pi => "Pi"
  | .e => "Exp1"
  | .i => "ImaginaryUnit"
  | .infinity => "Infinity"
  | .negInfinity => "NegativeInfinity"
  | .complexInfinity => "ComplexInfinity"
  | .nan => "NaN"
  | .eulerGamma => "EulerGamma"
  | .goldenRatio => "GoldenRatio"
  | .true => "BooleanTrue"
  | .false => "BooleanFalse"

def display : Constant → String
  | .pi => "pi"
  | .e => "E"
  | .i => "I"
  | .infinity => "oo"
  | .negInfinity => "-oo"
  | .complexInfinity => "zoo"
  | .nan => "nan"
  | .eulerGamma => "EulerGamma"
  | .goldenRatio => "GoldenRatio"
  | .true => "True"
  | .false => "False"

def value : Constant → ComplexFloat
  | .pi => .ofReal 3.141592653589793
  | .e => .ofReal 2.718281828459045
  | .i => ⟨0, 1⟩
  | .infinity => .ofReal Elementary.infinity
  | .negInfinity => .ofReal (-Elementary.infinity)
  | .complexInfinity => .inf
  | .nan => .ofReal Elementary.nan
  | .eulerGamma => .ofReal 0.5772156649015329
  | .goldenRatio => .ofReal 1.618033988749895
  | .true => .ofReal 1
  | .false => .ofReal 0

def ofTag? (tag : String) : Option Constant := all.find? fun c ↦ c.tag == tag

end Constant

/-- A symbolic expression. -/
inductive Expr where
  | num (q : Rat)
  | float (x : Float)
  | sym (name : String)
  | add (terms : List Expr)
  | mul (factors : List Expr)
  | pow (base exponent : Expr)
  | func (name : String) (args : List Expr)
  | const (c : Constant)
  | rel (op : Relation) (lhs rhs : Expr)
  /-- Branches in order, each a value with its condition. -/
  | piecewise (pieces : List (Expr × Expr))
  /-- One branch as a node of its own. -/
  | pair (value condition : Expr)
  /-- A leaf that stands for something outside the kernel. -/
  | atom (tag name : String)

namespace Expr

instance : Inhabited Expr := ⟨.num 0⟩

def int (n : Int) : Expr := .num (n : Rat)

/-- The name of a node's kind. -/
def tag : Expr → String
  | .num q => if q.den == 1 then "Integer" else "Rational"
  | .float _ => "Float"
  | .sym _ => "Symbol"
  | .add _ => "Add"
  | .mul _ => "Mul"
  | .pow _ _ => "Pow"
  | .func name _ => name
  | .const c => c.tag
  | .rel op _ _ => op.tag
  | .piecewise _ => "Piecewise"
  | .pair _ _ => "ExprCondPair"
  | .atom tag _ => tag

/-- The ordered children. -/
def args : Expr → List Expr
  | .add terms => terms
  | .mul factors => factors
  | .pow base exponent => [base, exponent]
  | .func _ args => args
  | .rel _ lhs rhs => [lhs, rhs]
  | .piecewise pieces => pieces.map fun p ↦ .pair p.1 p.2
  | .pair value condition => [value, condition]
  | _ => []

/-! ## Equality -/

mutual

/-- Equality node by node. Inexact numbers compare as numbers, so a NaN differs from itself. -/
def same : Expr → Expr → Bool
  | .num p, .num q => p == q
  | .float x, .float y => x == y
  | .sym a, .sym b => a == b
  | .add as, .add bs => sameAll as bs
  | .mul as, .mul bs => sameAll as bs
  | .pow a b, .pow c d => same a c && same b d
  | .func f as, .func g bs => f == g && sameAll as bs
  | .const c, .const d => c == d
  | .rel r a b, .rel s c d => r == s && same a c && same b d
  | .piecewise ps, .piecewise qs => samePieces ps qs
  | .pair a b, .pair c d => same a c && same b d
  | .atom t n, .atom u m => t == u && n == m
  | _, _ => false

def sameAll : List Expr → List Expr → Bool
  | [], [] => true
  | a :: as, b :: bs => same a b && sameAll as bs
  | _, _ => false

def samePieces : List (Expr × Expr) → List (Expr × Expr) → Bool
  | [], [] => true
  | (a, b) :: ps, (c, d) :: qs => same a c && same b d && samePieces ps qs
  | _, _ => false

end

/-! ## Symbols -/

/-- How deep evaluation and the search for symbols follow a tree. -/
def maxDepth : Nat := 10000

mutual

/-- The names of the symbols down to the depth limit, in order, with repetitions. -/
def symbolsAt (depth : Nat) : Expr → List String
  | .sym name => if maxDepth < depth then [] else [name]
  | .add terms => if maxDepth < depth then [] else symbolsList (depth + 1) terms
  | .mul factors => if maxDepth < depth then [] else symbolsList (depth + 1) factors
  | .pow base exponent =>
    if maxDepth < depth then []
    else symbolsAt (depth + 1) base ++ symbolsAt (depth + 1) exponent
  | .func _ args => if maxDepth < depth then [] else symbolsList (depth + 1) args
  | .rel _ lhs rhs =>
    if maxDepth < depth then [] else symbolsAt (depth + 1) lhs ++ symbolsAt (depth + 1) rhs
  | .piecewise pieces => if maxDepth ≤ depth then [] else symbolsPieces (depth + 2) pieces
  | .pair value condition =>
    if maxDepth < depth then []
    else symbolsAt (depth + 1) value ++ symbolsAt (depth + 1) condition
  | _ => []

def symbolsList (depth : Nat) : List Expr → List String
  | [] => []
  | e :: es => symbolsAt depth e ++ symbolsList depth es

def symbolsPieces (depth : Nat) : List (Expr × Expr) → List String
  | [] => []
  | (e, c) :: ps => symbolsAt depth e ++ symbolsAt depth c ++ symbolsPieces depth ps

end

/-- Drops neighbours that repeat. -/
def distinctSorted : List String → List String
  | a :: b :: rest => if a == b then distinctSorted (b :: rest) else a :: distinctSorted (b :: rest)
  | as => as

/-- The distinct names in increasing order. -/
def sortNames (names : List String) : List String :=
  distinctSorted (names.mergeSort fun a b ↦ decide (a ≤ b))

/-- The free symbols by name. -/
def freeSymbols (e : Expr) : List String := sortNames (symbolsAt 0 e)

end Expr

end ExprCompiler
