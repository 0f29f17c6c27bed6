import ExprCompiler.Builtin.Logic
import ExprCompiler.Builtin.Number

/-!
# The default registry
-/

namespace ExprCompiler.Registry

def entries : List (String × Callable) := [
  ("+", Builtin.add),
  ("-", Builtin.sub),
  ("*", Builtin.mul),
  ("/", Builtin.div),
  ("^", Builtin.pow),
  ("==", Builtin.equality "==" false),
  ("!=", Builtin.equality "!=" true),
  ("<", Builtin.comparison "<" (· == .lt)),
  ("<=", Builtin.comparison "<=" (· != .gt)),
  (">", Builtin.comparison ">" (· == .gt)),
  (">=", Builtin.comparison ">=" (· != .lt)),
  ("&", Builtin.conjunction),
  ("|", Builtin.disjunction),
  ("!", Builtin.negation),
  ("identity", Builtin.identity),
  ("abs", Builtin.abs),
  ("sign", Builtin.sign),
  ("real", Builtin.realPart),
  ("imag", Builtin.imagPart),
  ("conj", Builtin.conjugate),
  ("floor", Builtin.rounding "floor" Float.floor Rat.floor),
  ("ceil", Builtin.rounding "ceil" Float.ceil Rat.ceil),
  ("min", Builtin.extremum "min" (· == .lt)),
  ("max", Builtin.extremum "max" (· == .gt)),
  ("mod", Builtin.mod),
  ("factorial", Builtin.factorial),
  ("atan2", Builtin.realBinary "atan2" Float.atan2),
  ("heaviside", Builtin.heaviside),
  ("log", Builtin.logarithm),
  ("sin", Builtin.analytic "sin" Float.sin (some ComplexFloat.sin)),
  ("cos", Builtin.analytic "cos" Float.cos (some ComplexFloat.cos)),
  ("tan", Builtin.analytic "tan" Float.tan (some ComplexFloat.tan)),
  ("cot", Builtin.analytic "cot" (fun x ↦ 1 / Float.tan x) (some ComplexFloat.cot)),
  ("sec", Builtin.analytic "sec" (fun x ↦ 1 / Float.cos x) (some fun z ↦ .div (.ofReal 1) z.cos)),
  ("csc", Builtin.analytic "csc" (fun x ↦ 1 / Float.sin x) (some fun z ↦ .div (.ofReal 1) z.sin)),
  ("asin", Builtin.analytic "asin" Float.asin (some ComplexFloat.asin)),
  ("acos", Builtin.analytic "acos" Float.acos (some ComplexFloat.acos)),
  ("atan", Builtin.analytic "atan" Float.atan (some ComplexFloat.atan)),
  ("sinh", Builtin.analytic "sinh" Elementary.sinh (some ComplexFloat.sinh)),
  ("cosh", Builtin.analytic "cosh" Elementary.cosh (some ComplexFloat.cosh)),
  ("tanh", Builtin.analytic "tanh" Float.tanh (some ComplexFloat.tanh)),
  ("asinh", Builtin.analytic "asinh" Float.asinh (some ComplexFloat.asinh)),
  ("acosh", Builtin.analytic "acosh" Float.acosh (some ComplexFloat.acosh)),
  ("atanh", Builtin.analytic "atanh" Float.atanh (some ComplexFloat.atanh)),
  ("exp", Builtin.analytic "exp" Float.exp (some ComplexFloat.exp)),
  ("sqrt", Builtin.analytic "sqrt" Float.sqrt (some ComplexFloat.sqrt)),
  ("gamma", Builtin.analytic "gamma" Elementary.gamma none),
  ("loggamma", Builtin.analytic "loggamma" Elementary.logGamma none),
  ("erf", Builtin.analytic "erf" Elementary.erf none),
  ("erfc", Builtin.analytic "erfc" Elementary.erfc none),
  ("digamma", Builtin.analytic "digamma" Elementary.digamma none),
  ("zeta", Builtin.zeta),
  ("beta", Builtin.realBinary "beta" Elementary.beta)]

/-- The callables that every compilation starts from. -/
def builtin : Registry := entries.map fun e ↦ (e.1, some e.2)

/-- The callable of an identifier, if the registry has one that is not empty. -/
def find? (r : Registry) (name : String) : Option Callable := (r.get? name).join

end ExprCompiler.Registry
