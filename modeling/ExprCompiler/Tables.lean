import ExprCompiler.Value
import ExprCompiler.Table

/-!
# Constants and operators

Lowering reads two tables: one gives leaves their values, the other gives inner nodes their
callables.
-/

namespace ExprCompiler

/-- Values of leaves by tag. -/
abbrev Constants := Table Value

/-- Callables of inner nodes by tag. -/
abbrev Operators := Table String

def Constants.builtin : Constants := [
  ("Pi", .float 3.141592653589793),
  ("Exp1", .float 2.718281828459045),
  ("Infinity", .float Elementary.infinity),
  ("NegativeInfinity", .float (-Elementary.infinity)),
  ("ComplexInfinity", .complex .inf),
  ("ImaginaryUnit", .complex ⟨0, 1⟩),
  ("NaN", .float Elementary.nan),
  ("EulerGamma", .float 0.5772156649015329),
  ("GoldenRatio", .float 1.618033988749895),
  ("Catalan", .float 0.915965594177219),
  ("BooleanTrue", .bool true),
  ("BooleanFalse", .bool false),
  ("Half", .rational (1 / 2)),
  ("One", .int 1),
  ("Zero", .int 0),
  ("NegativeOne", .int (-1))]

def Operators.builtin : Operators := [
  ("Add", "+"),
  ("Sub", "-"),
  ("Mul", "*"),
  ("Div", "/"),
  ("Pow", "^"),
  ("Abs", "abs"),
  ("re", "real"),
  ("im", "imag"),
  ("conjugate", "conj"),
  ("Min", "min"),
  ("Max", "max"),
  ("Poly", "identity"),
  ("atan2", "atan2"),
  ("Heaviside", "heaviside"),
  ("ceiling", "ceil"),
  ("log", "log"),
  ("Mod", "mod"),
  ("factorial", "factorial"),
  ("Piecewise", "piecewise"),
  ("ExprCondPair", "pair"),
  ("Equality", "=="),
  ("Unequality", "!="),
  ("StrictLessThan", "<"),
  ("LessThan", "<="),
  ("StrictGreaterThan", ">"),
  ("GreaterThan", ">="),
  ("And", "&"),
  ("Or", "|"),
  ("Not", "!")]

/-- The callable of a tag. A tag without an entry names its callable itself. -/
def Operators.resolve (ops : Operators) (tag : String) : String := (ops.get? tag).getD tag

end ExprCompiler
