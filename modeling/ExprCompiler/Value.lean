import ExprCompiler.ComplexFloat.Functions
import ExprCompiler.Numeral.Reader

/-!
# Values

What compiled functions take and give: truth values, exact rationals, doubles and complex numbers,
and one invalid value that stands for none of them. Mixed operands meet at the widest of their
ranks; a truth value ranks as the rational 0 or 1.
-/

namespace ExprCompiler

/-- What kind of number a value is. -/
inductive Kind where
  | invalid
  | bool
  | rational
  | float
  | complex
deriving DecidableEq, Repr

namespace Kind

def name : Kind → String
  | .invalid => "invalid"
  | .bool => "bool"
  | .rational => "rational"
  | .float => "float"
  | .complex => "complex"

end Kind

/-- A number or a truth value. -/
inductive Value where
  | invalid
  | bool (b : Bool)
  | rational (q : Rat)
  | float (x : Float)
  | complex (z : ComplexFloat)

namespace Value

open Elementary (nan)

instance : Inhabited Value := ⟨.invalid⟩

def kind : Value → Kind
  | .invalid => .invalid
  | .bool _ => .bool
  | .rational _ => .rational
  | .float _ => .float
  | .complex _ => .complex

def isValid : Value → Bool
  | .invalid => false
  | _ => true

def int (n : Int) : Value := .rational (n : Rat)

/-- The exact content of a rational or a truth value. -/
def rat? : Value → Option Rat
  | .bool b => some (if b then 1 else 0)
  | .rational q => some q
  | _ => none

/-- The value as a double, and whether it is real. A complex number gives its real part. -/
def toFloat : Value → Float × Bool
  | .bool b => (if b then 1 else 0, true)
  | .rational q => (Numeral.nearest q, true)
  | .float x => (x, true)
  | .complex z => (z.re, false)
  | .invalid => (nan, false)

def asFloat (v : Value) : Float := v.toFloat.1

def toComplex : Value → ComplexFloat
  | .complex z => z
  | v => .ofReal v.asFloat

/-- Numbers hold when they are not zero, so a NaN holds. -/
def truth : Value → Bool
  | .bool b => b
  | .rational q => q != 0
  | .float x => x != 0
  | .complex z => !z.isZero
  | .invalid => false

/-- Whether the value is an exact integer; truth values are not. -/
def isInteger : Value → Bool
  | .rational q => q.den == 1
  | _ => false

/-- Equality of kind and content, where a NaN differs from itself. -/
def same : Value → Value → Bool
  | .invalid, .invalid => true
  | .bool a, .bool b => a == b
  | .rational p, .rational q => p == q
  | .float x, .float y => x == y
  | .complex z, .complex w => z.same w
  | _, _ => false

def text : Value → String
  | .bool b => if b then "true" else "false"
  | .rational q => Numeral.ratText q
  | .float x => Numeral.general x
  | .complex z => if z.isInf then "zoo" else z.text
  | .invalid => "<invalid>"

/-! ## Ranks -/

/-- The domains in which operands can meet, in increasing order. -/
inductive Rank where
  | invalid
  | rational
  | float
  | complex
deriving DecidableEq, Repr

def rank : Value → Rank
  | .invalid => .invalid
  | .bool _ | .rational _ => .rational
  | .float _ => .float
  | .complex _ => .complex

/-- The wider of two ranks. -/
def Rank.join : Rank → Rank → Rank
  | .complex, _ | _, .complex => .complex
  | .float, _ | _, .float => .float
  | .rational, _ | _, .rational => .rational
  | .invalid, .invalid => .invalid

/-- The rank at which operands meet, at least that of rationals. -/
def widest (vs : List Value) : Rank :=
  vs.foldl (fun r v ↦ r.join v.rank) .rational

end Value

end ExprCompiler
