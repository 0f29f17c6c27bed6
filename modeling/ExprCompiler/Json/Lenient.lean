import ExprCompiler.Json.Basic
import ExprCompiler.Numeral.Layout

/-!
# Lenient readings

Scalars where another kind of scalar is wanted: texts are read as numbers, truth values count as
one or zero, numbers are written out.
-/

namespace ExprCompiler.Json

def toFloat? : Json → Option Float
  | .number text => (Numeral.readFloat text).toOption
  | .string text => (Numeral.readFloat text).toOption
  | .bool b => some (if b then 1 else 0)
  | _ => none

/-- The integer part of a double as a signed word; what does not fit becomes the least word. -/
def wordOf (x : Float) : Int :=
  match Numeral.rational? x with
  | some q =>
    let n := Int.tdiv q.num q.den
    if Numeral.isWord n then n else -Numeral.signedBound
  | none => -Numeral.signedBound

/-- Fractions are cut off; nothing counts as zero. -/
def toInt? : Json → Option Int
  | .number text => (Numeral.readFloat text).toOption.map wordOf
  | .string text => (Numeral.readInt text).toOption
  | .bool b => some (if b then 1 else 0)
  | .null => some 0
  | _ => none

/-- Numbers are written without an exponent; nothing is the empty text. -/
def toText? : Json → Option String
  | .string text => some text
  | .bool b => some (if b then "true" else "false")
  | .number text => (Numeral.readFloat text).toOption.map Numeral.plain
  | .null => some ""
  | _ => none

end ExprCompiler.Json
